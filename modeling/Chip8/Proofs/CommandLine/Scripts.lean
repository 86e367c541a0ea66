import Chip8.Proofs.CommandLine.Courses
import Chip8.Proofs.Machine.Loading

/-! What a program does from its arguments to its exit code. It follows a script,
which is the usage, the error of the first check that fails, or the course of its
machine with what its ending makes the program write. -/
namespace Chip8.CommandLine
variable {files : String → Except FileError FileContent} {entropy : ChaCha.Key}
  {arguments : List String} {cycles : Nat} {program : List UInt8}

def Ending.exitCode : Ending → UInt32
  | .cyclesUsed | .inputEnded => 0
  | .undecodableLine | .keyRefused _ | .fault _ => 1

def closing (machine : Machine) : Ending → List Interaction
  | .cyclesUsed | .inputEnded => (dump machine).map .print
  | .undecodableLine => [.complain ("Error: " ++ inputDiagnostic)]
  | .keyRefused fault => [.complain ("Error: " ++ faultDiagnostic fault)]
  | .fault fault =>
    .complain (LogEntry.machineStopped fault).line :: (dump machine).map .print ++
      [.complain ("Error: " ++ faultDiagnostic fault)]

def Course.record (course : Course) : List Interaction :=
  exchanges course.prompts ++ closing course.machine course.ending

def played (entropy : ChaCha.Key) (cycles : Nat) (program : List UInt8) (lines : List InputLine) :
    UInt32 × List Interaction :=
  if program.length ≤ longestProgram then
    let course := course cycles ((Machine.fresh settings entropy).load program).machine lines
    (course.ending.exitCode,course.record)
  else (1,[.complain ("Error: " ++
    faultDiagnostic (.programTooLarge program.length longestProgram 0x200))])

theorem records_fail (diagnostic : String) (transcript : Transcript) :
    Records (fail (Transcript.terminal files).recorded diagnostic) transcript 1
      [.complain ("Error: " ++ diagnostic)] :=
  (records_complain _ transcript).bind (records_pure _ 1)

theorem records_conclude (machine : Machine) (ending : Ending) (transcript : Transcript) :
    Records (conclude (Transcript.terminal files).recorded machine ending) transcript ending.exitCode
      (closing machine ending) := by
  cases ending with
  | undecodableLine | keyRefused fault => exact records_fail _ transcript
  | fault fault =>
    exact (records_complain _ transcript).bind ((records_prints _ _).bind (records_fail _ _))
  | cyclesUsed | inputEnded =>
    rw [closing,← List.append_nil (List.map _ _)]
    exact (records_prints _ transcript).bind (records_pure _ 0)

theorem records_play (transcript : Transcript) :
    Records (play (Transcript.terminal files).recorded entropy program cycles) transcript
      (played entropy cycles program (transcript.input.map .ofBytes)).1
      (played entropy cycles program (transcript.input.map .ofBytes)).2 := by
  unfold play played
  by_cases fits : program.length ≤ longestProgram
  · simp only [Machine.load_ok_iff.mpr fits,if_pos fits]
    exact (records_converse cycles _ transcript).bind (records_conclude _ _ _)
  · simp only [Machine.load_overlong _ (Nat.lt_of_not_le fits),if_neg fits]
    exact records_fail _ transcript

/-- The exit code of the program on the bytes of its input, and the record of its terminal. -/
def recording (files : String → Except FileError FileContent) (entropy : ChaCha.Key)
    (arguments : List String) (input : List UInt8) : UInt32 × List Interaction :=
  (((run (Transcript.terminal files).recorded entropy arguments).run []).run
    {input := InputLine.cut input}).1

def opened (files : String → Except FileError FileContent) (path : String) (input : List UInt8) :
    Except FileError (List UInt8 × List InputLine) :=
  match files path with
  | .error error => .error error
  | .ok (.bytes program) => .ok (program,(InputLine.cut input).map .ofBytes)
  | .ok .input => .ok (input,[])

/-- Reading a file gives the bytes that `opened` names, and leaves the lines that it names. -/
theorem readFile_opened (files : String → Except FileError FileContent) (path : String)
    (input : List UInt8) :
    ∃ left, ((Transcript.terminal files).readFile path).run {input := InputLine.cut input} =
        ((opened files path input).map Prod.fst,{input := left}) ∧
      ∀ program lines, opened files path input = .ok (program,lines) → left.map .ofBytes = lines := by
  simp only [Transcript.terminal,StateT.run,opened]
  cases files path with
  | error error =>
    refine ⟨InputLine.cut input,rfl,fun program lines given => ?_⟩
    cases given
  | ok content =>
    cases content with
    | bytes stored =>
      refine ⟨InputLine.cut input,rfl,fun program lines given => ?_⟩
      exact congrArg Prod.snd (Except.ok.inj given)
    | input =>
      refine ⟨[],?_,fun program lines given => congrArg Prod.snd (Except.ok.inj given)⟩
      rw [InputLine.flatten_cut]
      rfl

def script (files : String → Except FileError FileContent) (entropy : ChaCha.Key)
    (arguments : List String) (input : List UInt8) : UInt32 × List Interaction :=
  match readArguments arguments with
  | none => (0,[.print usage])
  | some (_,.error error) => (1,[.complain ("Error: " ++ error.diagnostic)])
  | some (path,.ok cycles) =>
    match opened files path input with
    | .error error => (1,[.openFile path,.complain ("Error: " ++ error.diagnostic)])
    | .ok (program,lines) =>
      let played := played entropy cycles program lines
      (played.1,.openFile path :: played.2)

/-- The program follows its script, and leaves the transcript of its input as the record says. -/
theorem run_recorded (files : String → Except FileError FileContent) (entropy : ChaCha.Key)
    (arguments : List String) (input : List UInt8) :
    ∃ left, ((run (Transcript.terminal files).recorded entropy arguments).run []).run
        {input := InputLine.cut input} =
      (script files entropy arguments input,
        ({input := left} : Transcript).after (script files entropy arguments input).2) := by
  unfold run script
  cases readArguments arguments with
  | none =>
    have printed : Records (do
        (Transcript.terminal files).recorded.print usage
        return (0 : UInt32)) {input := InputLine.cut input} 0 [.print usage] :=
      (records_print usage _).bind (records_pure _ 0)
    exact ⟨_,printed []⟩
  | some called =>
    obtain ⟨path,error | cycles⟩ := called
    · exact ⟨_,records_fail error.diagnostic {input := InputLine.cut input} []⟩
    · obtain ⟨left,read,told⟩ := readFile_opened files path input
      refine ⟨left,?_⟩
      simp only [StateT.run_bind,Transcript.recorded_readFile,read]
      cases reading : opened files path input with
      | error error => exact records_fail error.diagnostic {input := left} [.openFile path]
      | ok given =>
        obtain ⟨program,lines⟩ := given
        have same : left.map .ofBytes = lines := told _ _ reading
        rw [← same]
        exact records_play {input := left} [.openFile path]

theorem recording_script (files : String → Except FileError FileContent) (entropy : ChaCha.Key)
    (arguments : List String) (input : List UInt8) :
    recording files entropy arguments input = script files entropy arguments input := by
  obtain ⟨left,ran⟩ := run_recorded files entropy arguments input
  exact congrArg Prod.fst ran

theorem readArguments_none (unasked : arguments.length ≠ 1 ∧ arguments.length ≠ 2) :
    readArguments arguments = none := by
  fun_cases readArguments arguments with
  | case1 path => exact absurd rfl unasked.1
  | case2 path count => exact absurd rfl unasked.2
  | case3 => rfl

/-- All that a program does, for all arguments, files, inputs and random numbers. Its record is
the usage, the error of the first check that fails, or its course: prompts with one line asked for
at each, and behind them what its ending makes it write. -/
theorem program_outcome (files : String → Except FileError FileContent) (entropy : ChaCha.Key)
    (arguments : List String) (input : List UInt8) :
    Erases (run (Transcript.terminal files).recorded entropy arguments)
        (run (Transcript.terminal files) entropy arguments) ∧
      (arguments.length ≠ 1 ∧ arguments.length ≠ 2 →
        recording files entropy arguments input = (0,[.print usage])) ∧
      ∀ path count, (arguments = [path] ∧ count = .ok usualCycles ∨
          ∃ text, arguments = [path,text] ∧ count = readCount text) →
        (∀ error, count = .error error → recording files entropy arguments input =
          (1,[.complain ("Error: " ++ error.diagnostic)])) ∧
        ∀ cycles, count = .ok cycles →
          (∀ error, opened files path input = .error error → recording files entropy arguments input =
            (1,[.openFile path,.complain ("Error: " ++ error.diagnostic)])) ∧
          ∀ program lines, opened files path input = .ok (program,lines) →
            (longestProgram < program.length → recording files entropy arguments input =
              (1,[.openFile path,.complain ("Error: " ++
                faultDiagnostic (.programTooLarge program.length longestProgram 0x200))])) ∧
            (program.length ≤ longestProgram →
              let course := course cycles ((Machine.fresh settings entropy).load program).machine lines
              recording files entropy arguments input = (course.ending.exitCode,
                .openFile path :: exchanges course.prompts ++ closing course.machine course.ending) ∧
              course.prompts ≤ course.statuses.length ∧ course.statuses.length ≤ cycles ∧
              course.prompts ≤ lines.length + 1 ∧
              (course.ending = .inputEnded ↔ course.prompts = lines.length + 1) ∧
              (course.ending = .undecodableLine ↔
                ∃ before, course.prompts = before + 1 ∧ lines[before]? = some .undecodable) ∧
              (∀ fault, course.ending ≠ .keyRefused fault) ∧
              ∀ fault, course.ending = .fault fault ↔
                course.statuses.length < cycles ∧ course.machine.step.answer = .error fault) := by
  rw [recording_script]
  refine ⟨erases_run _ entropy arguments,?_,?_⟩
  · intro unasked
    simp only [script,readArguments_none unasked]
  · intro path count called
    have asked : readArguments arguments = some (path,count) := by
      rcases called with ⟨rfl,rfl⟩ | ⟨text,rfl,rfl⟩ <;> rfl
    simp only [script,asked]
    refine ⟨?_,?_⟩
    · rintro error rfl
      rfl
    · rintro cycles rfl
      refine ⟨fun error unopened => ?_,fun program lines reading => ⟨fun long => ?_,fun fits => ?_⟩⟩
      · simp only [unopened]
      · simp only [reading,played,if_neg (Nat.not_le_of_lt long)]
      · simp only [reading,played,if_pos fits]
        exact ⟨rfl,Course.prompts_le _,course_steps _ _ _,(course_prompts _ _ _).1,
          (course_prompts _ _ _).2,course_undecodable,course_unrefused _ _ _,fun _ => course_fault⟩

/-- A program that waits for one key and then returns from nowhere. -/
theorem program_outcome_stopped :
    let files : String → Except FileError FileContent := fun _ => .ok (.bytes [0xF0,0x0A,0x00,0xEE])
    recording files (Vector.replicate 8 0) ["rom","3"] [113,10] =
      (1,[.openFile "rom",.print prompt,.readLine,
        .complain "WARN machine stopped: stack underflow: return with an empty call stack",
        .print "PC=0x202 I=0x000 SP=0 DT=0 ST=0",
        .print ("V0=04 V1=00 V2=00 V3=00 V4=00 V5=00 V6=00 V7=00 " ++
          "V8=00 V9=00 VA=00 VB=00 VC=00 VD=00 VE=00 VF=00 "),
        .complain "Error: StackUnderflow"]) := by
  intro files
  obtain ⟨_,_,called⟩ := program_outcome files (Vector.replicate 8 0) ["rom","3"] [113,10]
  obtain ⟨_,counted⟩ := called "rom" (readCount "3") (.inr ⟨"3",rfl,rfl⟩)
  obtain ⟨_,read⟩ := counted 3 rfl
  obtain ⟨_,fits⟩ := read [0xF0,0x0A,0x00,0xEE] ((InputLine.cut [113,10]).map .ofBytes) rfl
  obtain ⟨recorded,_⟩ := fits (by decide)
  rw [recorded]
  decide +kernel

end Chip8.CommandLine
