import Chip8.Proofs.CommandLine.Lines
import Chip8.Proofs.CommandLine.Outcomes

/-! How much of its input the program takes notice of. Of a line that it reads it
hears the first key only, and what it has not read it does not know. -/
namespace Chip8.CommandLine
open InputLine
variable {files : String → Except FileError FileContent} {entropy : ChaCha.Key}
  {path : String} {arguments : List String} {cycles : Nat} {program : List UInt8}
  {machine : Machine} {lines : List InputLine}

namespace InputLine

def key : InputLine → Option UInt8
  | .text line => lineCode? line
  | .undecodable => none

def heard : InputLine → Option (Option UInt8)
  | .text line => some (lineCode? line)
  | .undecodable => none

end InputLine

def keys (input : List UInt8) : List (Option UInt8) := (cut input).map fun line => (ofBytes line).key

theorem heard_cut {input : List UInt8} (text : Textual input) :
    ((cut input).map ofBytes).map heard = (keys input).map some := by
  rw [keys,List.map_map,List.map_map]
  refine List.map_congr_left fun line listed => ?_
  obtain ⟨typed,read⟩ := ofBytes_textual (cut_textual text line listed)
  simp only [read,heard,key,Function.comp_apply]

/-- A conversation goes the same way with other lines if as much is heard of them as it asks for. -/
theorem course_agree {others : List InputLine}
    (same : (others.map heard).take (course cycles machine lines).prompts =
      (lines.map heard).take (course cycles machine lines).prompts) :
    (course cycles machine others).statuses = (course cycles machine lines).statuses ∧
      (course cycles machine others).machine = (course cycles machine lines).machine ∧
      (course cycles machine others).ending = (course cycles machine lines).ending := by
  fun_induction course cycles machine lines generalizing others with
  | case1 => exact ⟨rfl,rfl,rfl⟩
  | case2 cycles machine lines fault answer => rw [course_failed answer]; exact ⟨rfl,rfl,rfl⟩
  | case3 cycles machine lines answer ih =>
    rw [Course.prompts_running] at same
    rw [course_ran answer]
    obtain ⟨statuses,left,ends⟩ := ih same
    exact ⟨congrArg (List.cons _) statuses,left,ends⟩
  | case4 cycles machine answer =>
    cases others with
    | nil => rw [course_dry answer]; exact ⟨rfl,rfl,rfl⟩
    | cons other others => cases same
  | case5 cycles machine answer lines =>
    cases others with
    | nil => cases same
    | cons other others =>
      obtain ⟨first,_⟩ := List.cons.inj same
      cases other with
      | text line => cases first
      | undecodable => rw [course_garbled answer]; exact ⟨rfl,rfl,rfl⟩
  | case6 cycles machine answer line lines ih =>
    rw [Course.prompts_awaitingKey] at same
    cases others with
    | nil => cases same
    | cons other others =>
      obtain ⟨first,rest⟩ := List.cons.inj same
      cases other with
      | undecodable => cases first
      | text another =>
        have typed : machine.step.machine.after (typing machine.step.machine another) =
            machine.step.machine.after (typing machine.step.machine line) :=
          after_typing_congr (Option.some.inj first)
        rw [course_typed answer,typed]
        obtain ⟨statuses,left,ends⟩ := ih rest
        exact ⟨congrArg (List.cons _) statuses,left,ends⟩

/-- The program shows the same on any input of which as much is heard as its conversation asks for. -/
theorem outcome_agree (called : readArguments arguments = some (path,.ok cycles))
    (stored : files path = .ok (.bytes program)) {input other : List UInt8} {prompts : Nat}
    (asked : (course cycles ((Machine.fresh settings entropy).load program).machine
      ((cut input).map ofBytes)).prompts = prompts)
    (same : (((cut other).map ofBytes).map heard).take prompts =
      (((cut input).map ofBytes).map heard).take prompts) :
    outcome files entropy arguments other = outcome files entropy arguments input := by
  subst asked
  obtain ⟨statuses,left,ends⟩ := course_agree same
  simp only [outcome_script,script,called,opened,stored,played,Course.record,Course.prompts,
    statuses,left,ends]

/-- What is left behind a conversation is the input without a line for each prompt. -/
theorem talk?_stored (stored : files path = .ok (.bytes program)) {input : List UInt8}
    {talked : (Machine × Ending) × Transcript}
    (runs : talk? files entropy path cycles input = some talked) :
    let course := course cycles ((Machine.fresh settings entropy).load program).machine
      ((cut input).map ofBytes)
    talked.1.2 = course.ending ∧ talked.2.input = (cut input).drop course.prompts := by
  have read : ((Transcript.terminal files).readFile path).run {input := cut input} =
      (.ok program,{input := cut input}) := by
    simp only [Transcript.terminal,StateT.run,stored]
  simp only [talk?,read] at runs
  cases answer : ((Machine.fresh settings entropy).load program).answer with
  | error fault =>
    simp only [answer] at runs
    cases runs
  | ok =>
    simp only [answer,converse_course,Option.some.injEq] at runs
    rw [← runs]
    exact ⟨rfl,Transcript.input_exchanges _ _⟩

/-- The program hears nothing of its input but the first key of each line. Behind the lines that it
has read, the input may go on in any way. -/
theorem first_keys_decide (files : String → Except FileError FileContent) (entropy : ChaCha.Key)
    (asked : readArguments arguments = some (path,.ok cycles))
    (stored : files path = .ok (.bytes program)) :
    (∀ first second, Textual first → Textual second → keys first = keys second →
      outcome files entropy arguments first = outcome files entropy arguments second) ∧
    ∀ input talked read, talk? files entropy path cycles input = some talked →
      talked.1.2 ≠ .inputEnded → read ≤ (cut input).length → talked.2.input = (cut input).drop read →
      (∀ other, ((cut other).take read).map ofBytes = ((cut input).take read).map ofBytes →
        outcome files entropy arguments other = outcome files entropy arguments input) ∧
      ((∀ line ∈ (cut input).take read, 10 ∈ line) → ∀ rest,
        outcome files entropy arguments (((cut input).take read).flatten ++ rest) =
          outcome files entropy arguments input) := by
  constructor
  · intro first second former latter same
    refine outcome_agree asked stored rfl ?_
    rw [heard_cut former,heard_cut latter,same]
  · intro input talked read runs lasting inside left
    obtain ⟨ending,behind⟩ := talk?_stored stored runs
    have general (other : List UInt8)
        (same : ((cut other).take read).map ofBytes = ((cut input).take read).map ofBytes) :
        outcome files entropy arguments other = outcome files entropy arguments input := by
      obtain ⟨enough,dry⟩ := course_prompts cycles ((Machine.fresh settings entropy).load program).machine
        ((cut input).map ofBytes)
      rw [ending,Ne,dry,List.length_map] at lasting
      rw [List.length_map] at enough
      -- As many lines are left, so as many have been read.
      have length := congrArg List.length (behind.symm.trans left)
      rw [List.length_drop,List.length_drop] at length
      refine outcome_agree asked stored (show _ = read by omega) ?_
      rw [← List.map_take,← List.map_take,same,List.map_take,List.map_take]
    refine ⟨general,fun ended rest => general _ ?_⟩
    have lines : ∀ line ∈ (cut input).take read, ∃ front, 10 ∉ front ∧ line = front ++ [10] :=
      fun line listed => cut_line (List.mem_of_mem_take listed) (ended line listed)
    rw [cut_lines lines,List.take_left' (List.length_take_of_le inside)]

/-- A program that waits for one key. The lines of the first two inputs have the same key, and the
last two inputs have the same line before what is never read. -/
theorem first_keys_decide_once :
    let files : String → Except FileError FileContent := fun _ => .ok (.bytes [0xF0,0x0A])
    let outcomes := outcome files (Vector.replicate 8 0) ["rom","1"]
    outcomes [113,10] = outcomes [45,81,50,13,10] ∧
      outcomes [113,10,255] = outcomes [113,10,122,10] := by
  intro files outcomes
  have asked : readArguments ["rom","1"] = some ("rom",.ok 1) := rfl
  have stored : files "rom" = .ok (.bytes [0xF0,0x0A]) := rfl
  obtain ⟨alike,taken⟩ := first_keys_decide files (Vector.replicate 8 0) asked stored
  have seen : (talk? files (Vector.replicate 8 0) "rom" 1 [113,10,122,10]).map
      (fun talked => (talked.1.2,talked.2.input)) = some (.cyclesUsed,[[122,10]]) := by
    decide +kernel
  obtain ⟨talked,runs,ends⟩ := Option.map_eq_some_iff.mp seen
  obtain ⟨ending,left⟩ := Prod.mk.inj ends
  have lasting : talked.1.2 ≠ .inputEnded := by
    rw [ending]
    nofun
  have pressed : keys [113,10] = keys [45,81,50,13,10] := by decide +kernel
  have same := alike _ _ (by decide +kernel) (by decide +kernel) pressed
  exact ⟨same,(taken _ talked 1 runs lasting (by decide) left).2 (by decide) [255]⟩

end Chip8.CommandLine
