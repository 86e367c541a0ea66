import Chip8.Proofs.CommandLine.Scripts

/-! What the program shows in the end: its exit code and all that it has written.
With more cycles it prints at least the same prompts, and it shows the same if
it had ended before its cycles were used up. -/
namespace Chip8.CommandLine
variable {files : String → Except FileError FileContent} {entropy : ChaCha.Key}
  {path : String} {cycles : Nat} {program input : List UInt8} {lines : List InputLine}

structure Outcome where
  exitCode : UInt32
  printed : List String
  complaints : List String
deriving DecidableEq

def Outcome.prompts (outcome : Outcome) : List String := outcome.printed.filter (· = prompt)

def outcome (files : String → Except FileError FileContent) (entropy : ChaCha.Key)
    (arguments : List String) (input : List UInt8) : Outcome :=
  let (code,left) := (run (Transcript.terminal files) entropy arguments).run
    {input := InputLine.cut input}
  ⟨code,left.printed,left.complaints⟩

def talk? (files : String → Except FileError FileContent) (entropy : ChaCha.Key)
    (path : String) (cycles : Nat) (input : List UInt8) : Option ((Machine × Ending) × Transcript) :=
  match ((Transcript.terminal files).readFile path).run {input := InputLine.cut input} with
  | (.error _,_) => none
  | (.ok program,transcript) =>
    let loaded := (Machine.fresh settings entropy).load program
    match loaded.answer with
    | .error _ => none
    | .ok () => some ((converse (Transcript.terminal files) cycles loaded.machine).run transcript)

def seen (script : UInt32 × List Interaction) : Outcome where
  exitCode := script.1
  printed := script.2.filterMap Interaction.printed?
  complaints := script.2.filterMap Interaction.complained?

theorem outcome_script (files : String → Except FileError FileContent) (entropy : ChaCha.Key)
    (arguments : List String) (input : List UInt8) :
    outcome files entropy arguments input = seen (script files entropy arguments input) := by
  obtain ⟨left,ran⟩ := run_recorded files entropy arguments input
  rw [outcome,← erases_run (Transcript.terminal files) entropy arguments [],StateT.run_map,ran]
  rfl

/-- The lines of a dump start with other letters than a prompt. -/
theorem dump_unprompted (machine : Machine) : (dump machine).filter (· = prompt) = [] := by
  rw [List.filter_eq_nil_iff]
  intro line listed same
  have first : line.toList.head? = some 'p' := by
    rw [of_decide_eq_true same]
    decide
  simp only [dump,List.mem_cons,List.not_mem_nil,or_false] at listed
  rcases listed with counter | general
  · rw [counter] at first
    simp [String.toList_append,toString] at first
  · rw [general] at first
    cases values : machine.registers.general.toList with
    | nil => simp [values] at first
    | cons value others => simp [values] at first

theorem printed_dump (lines : List String) :
    (lines.map Interaction.print).filterMap Interaction.printed? = lines := by
  rw [List.filterMap_map]
  exact List.filterMap_some

theorem exchanges_printed (prompts : Nat) :
    (exchanges prompts).filterMap Interaction.printed? = List.replicate prompts prompt := by
  induction prompts with
  | zero => rfl
  | succ prompts ih =>
    rw [exchanges_succ,List.filterMap_append,ih]
    rfl

theorem closing_prompts (machine : Machine) (ending : Ending) :
    ((closing machine ending).filterMap Interaction.printed?).filter (· = prompt) = [] := by
  cases ending with
  | undecodableLine | keyRefused fault => rfl
  | cyclesUsed | inputEnded => rw [closing,printed_dump,dump_unprompted]
  | fault fault =>
    change (List.filterMap Interaction.printed? ((dump machine).map .print ++ _)).filter _ = _
    rw [List.filterMap_append,printed_dump,List.filter_append,dump_unprompted]
    rfl

/-- The program shows one prompt for each step that waits. -/
theorem seen_prompts (course : Course) (path : String) :
    (seen (course.ending.exitCode,.openFile path :: course.record)).prompts =
      List.replicate course.prompts prompt := by
  change (List.filterMap Interaction.printed? (exchanges course.prompts ++ _)).filter _ = _
  rw [List.filterMap_append,List.filter_append,closing_prompts,exchanges_printed,List.append_nil]
  simp

theorem talk?_opened (reading : opened files path input = .ok (program,lines))
    (fits : program.length ≤ longestProgram) :
    (talk? files entropy path cycles input).map (·.1.2) =
      some (course cycles ((Machine.fresh settings entropy).load program).machine lines).ending := by
  obtain ⟨left,read,told⟩ := readFile_opened files path input
  have same : left.map .ofBytes = lines := told _ _ reading
  rw [reading] at read
  simp only [talk?,read,Except.map,Machine.load_ok_iff.mpr fits,converse_course,same,Option.map_some]

/-- With more cycles the program prints at least the same prompts, and it shows exactly the same
if its conversation ended for any other reason than that its cycles were used up. -/
theorem longer_run (files : String → Except FileError FileContent) (entropy : ChaCha.Key)
    (input : List UInt8) {shorter longer : List String} {more : Nat}
    (short : readArguments shorter = some (path,.ok cycles))
    (long : readArguments longer = some (path,.ok more)) (extended : cycles ≤ more) :
    (outcome files entropy shorter input).prompts <+: (outcome files entropy longer input).prompts ∧
      ((talk? files entropy path cycles input).map (·.1.2) ≠ some .cyclesUsed →
        outcome files entropy longer input = outcome files entropy shorter input) := by
  obtain ⟨extra,rfl⟩ := Nat.exists_eq_add_of_le extended
  simp only [outcome_script,script,short,long]
  cases reading : opened files path input with
  | error error => exact ⟨List.prefix_rfl,fun _ => rfl⟩
  | ok given =>
    obtain ⟨program,lines⟩ := given
    by_cases fits : program.length ≤ longestProgram
    · rw [talk?_opened reading fits]
      simp only [played,if_pos fits,seen_prompts]
      generalize ((Machine.fresh settings entropy).load program).machine = machine
      by_cases used : (course cycles machine lines).ending = .cyclesUsed
      · refine ⟨?_,fun ended => absurd (congrArg some used) ended⟩
        rw [course_used extra used,Course.prompts_followed,List.replicate_add]
        exact List.prefix_append _ _
      · rw [course_ended extra used]
        exact ⟨List.prefix_rfl,fun _ => rfl⟩
    · simp only [played,if_neg fits]
      exact ⟨List.prefix_rfl,fun _ => trivial⟩

/-- A program that waits for a key finds no line, whether it may go on for two cycles or for more. -/
theorem longer_run_unanswered :
    let files : String → Except FileError FileContent := fun _ => .ok (.bytes [0xF0,0x0A])
    let entropy := Vector.replicate 8 0
    readArguments ["rom","2"] = some ("rom",.ok 2) ∧
      readArguments ["rom"] = some ("rom",.ok usualCycles) ∧
      (talk? files entropy "rom" 2 []).map (·.1.2) = some .inputEnded ∧
      outcome files entropy ["rom"] [] = outcome files entropy ["rom","2"] [] := by
  intro files entropy
  have short : readArguments ["rom","2"] = some ("rom",.ok 2) := rfl
  have long : readArguments ["rom"] = some ("rom",.ok usualCycles) := rfl
  have ended : (talk? files entropy "rom" 2 []).map (·.1.2) = some .inputEnded := by decide +kernel
  have unused : (talk? files entropy "rom" 2 []).map (·.1.2) ≠ some .cyclesUsed := by
    rw [ended]
    nofun
  obtain ⟨_,same⟩ := longer_run files entropy [] short long (by decide)
  exact ⟨short,long,ended,same unused⟩

end Chip8.CommandLine
