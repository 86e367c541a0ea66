import Chip8.Proofs.CommandLine.Recording
import Chip8.Proofs.CommandLine.Typing
import Chip8.Proofs.Machine.KeyWait
import Chip8.Proofs.Machine.Refusal

/-! The course of a conversation. It follows from what the steps of its machine
answer and from the lines it has been given, and it says all that a conversation
does on its terminal and asks of its machine. -/
namespace Chip8.CommandLine
variable {files : String → Except FileError FileContent} {cycles : Nat} {machine : Machine}
  {lines : List InputLine}

/-- A conversation seen from its machine: what the steps that went well answered, all that was asked
of the machine, what is left of it, and why the conversation ended. -/
structure Course where
  statuses : List Status
  requests : List Request
  machine : Machine
  ending : Ending
deriving DecidableEq

namespace Course

def prompts (course : Course) : Nat := course.statuses.count .awaitingKey

def behind (course : Course) (status : Status) (cycle : List Request) : Course :=
  {course with
    statuses := status :: course.statuses
    requests := cycle ++ course.requests}

def followed (course later : Course) : Course where
  statuses := course.statuses ++ later.statuses
  requests := course.requests ++ later.requests
  machine := later.machine
  ending := later.ending

theorem prompts_running (course : Course) (cycle : List Request) :
    (course.behind .running cycle).prompts = course.prompts := by
  simp [prompts,behind]

theorem prompts_awaitingKey (course : Course) (cycle : List Request) :
    (course.behind .awaitingKey cycle).prompts = course.prompts + 1 := by
  simp [prompts,behind]

theorem prompts_followed (course later : Course) :
    (course.followed later).prompts = course.prompts + later.prompts := List.count_append

theorem prompts_le (course : Course) : course.prompts ≤ course.statuses.length := List.count_le_length

theorem behind_followed (course later : Course) (status : Status) (cycle : List Request) :
    (course.behind status cycle).followed later = (course.followed later).behind status cycle := by
  simp only [behind,followed,List.cons_append,List.append_assoc]

end Course

def course : Nat → Machine → List InputLine → Course
  | 0, machine, _ => ⟨[],[],machine,.cyclesUsed⟩
  | cycles + 1, machine, lines =>
    match machine.step.answer with
    | .error fault => ⟨[],[.step],machine.step.machine,.fault fault⟩
    | .ok .running => (course cycles machine.step.machine lines).behind .running [.step]
    | .ok .awaitingKey =>
      match lines with
      | [] => ⟨[.awaitingKey],[.step],machine.step.machine,.inputEnded⟩
      | .undecodable :: _ => ⟨[.awaitingKey],[.step],machine.step.machine,.undecodableLine⟩
      | .text line :: lines =>
        (course cycles (machine.step.machine.after (typing machine.step.machine line)) lines).behind
          .awaitingKey (.step :: typing machine.step.machine line)

theorem course_failed {fault : Fault} (answer : machine.step.answer = .error fault) :
    course (cycles + 1) machine lines = ⟨[],[.step],machine.step.machine,.fault fault⟩ := by
  rw [course.eq_def]
  simp only [answer]

theorem course_ran (answer : machine.step.answer = .ok .running) :
    course (cycles + 1) machine lines =
      (course cycles machine.step.machine lines).behind .running [.step] := by
  rw [course.eq_def]
  simp only [answer]

section
variable (answer : machine.step.answer = .ok .awaitingKey)
include answer

theorem course_dry : course (cycles + 1) machine [] =
    ⟨[.awaitingKey],[.step],machine.step.machine,.inputEnded⟩ := by
  simp only [course,answer]

theorem course_garbled : course (cycles + 1) machine (.undecodable :: lines) =
    ⟨[.awaitingKey],[.step],machine.step.machine,.undecodableLine⟩ := by
  simp only [course,answer]

theorem course_typed {line : String} : course (cycles + 1) machine (.text line :: lines) =
    (course cycles (machine.step.machine.after (typing machine.step.machine line)) lines).behind
      .awaitingKey (.step :: typing machine.step.machine line) := by
  simp only [course,answer]

end

theorem course_steps (cycles : Nat) (machine : Machine) (lines : List InputLine) :
    (course cycles machine lines).statuses.length ≤ cycles := by
  fun_induction course cycles machine lines with
  | case1 => exact Nat.le_refl 0
  | case2 => exact Nat.zero_le _
  | case3 cycles machine lines answer ih | case6 cycles machine answer line lines ih =>
    exact Nat.succ_le_succ ih
  | case4 cycles machine answer | case5 cycles machine answer lines => exact Nat.le_add_left 1 cycles

theorem course_machine (cycles : Nat) (machine : Machine) (lines : List InputLine) :
    (course cycles machine lines).machine = machine.after (course cycles machine lines).requests := by
  fun_induction course cycles machine lines with
  | case1 | case2 | case4 | case5 => rfl
  | case3 cycles machine lines answer ih => exact ih
  | case6 cycles machine answer line lines ih =>
    exact ih.trans (Machine.after_append machine.step.machine _ _).symm

/-- A key that has been pressed is never refused when it is let go. -/
theorem course_unrefused (cycles : Nat) (machine : Machine) (lines : List InputLine) (fault : Fault) :
    (course cycles machine lines).ending ≠ .keyRefused fault := by
  fun_induction course cycles machine lines with
  | case1 | case2 | case4 | case5 => nofun
  | case3 cycles machine lines answer ih | case6 cycles machine answer line lines ih => exact ih

/-- A fault ends the conversation where there is a step left to take and it fails. -/
theorem course_fault {fault : Fault} :
    (course cycles machine lines).ending = .fault fault ↔
      (course cycles machine lines).statuses.length < cycles ∧
        (course cycles machine lines).machine.step.answer = .error fault := by
  fun_induction course cycles machine lines with
  | case1 => simp
  | case2 cycles machine lines reason answer => simp [Machine.step_fault answer,answer]
  | case3 cycles machine lines answer ih | case6 cycles machine answer line lines ih =>
    exact ih.trans (and_congr_left' Nat.succ_lt_succ_iff.symm)
  | case4 cycles machine answer | case5 cycles machine answer => simp [Machine.step_waits answer]

/-- Each prompt but the last one has been answered by a line. -/
theorem course_prompts (cycles : Nat) (machine : Machine) (lines : List InputLine) :
    (course cycles machine lines).prompts ≤ lines.length + 1 ∧
      ((course cycles machine lines).ending = .inputEnded ↔
        (course cycles machine lines).prompts = lines.length + 1) := by
  fun_induction course cycles machine lines with
  | case1 | case2 | case4 | case5 => simp [Course.prompts]
  | case3 cycles machine lines answer ih =>
    rw [Course.prompts_running]
    exact ih
  | case6 cycles machine answer line lines ih =>
    rw [Course.prompts_awaitingKey]
    exact ⟨Nat.succ_le_succ ih.1,ih.2.trans Nat.succ_inj.symm⟩

theorem course_undecodable :
    (course cycles machine lines).ending = .undecodableLine ↔
      ∃ before, (course cycles machine lines).prompts = before + 1 ∧
        lines[before]? = some .undecodable := by
  fun_induction course cycles machine lines with
  | case1 | case2 | case4 | case5 => simp [Course.prompts]
  | case3 cycles machine lines answer ih =>
    rw [Course.prompts_running]
    exact ih
  | case6 cycles machine answer line lines ih =>
    rw [Course.prompts_awaitingKey]
    refine ih.trans ⟨fun ⟨before,taken,read⟩ => ⟨before + 1,congrArg Nat.succ taken,read⟩,?_⟩
    rintro ⟨before,taken,read⟩
    cases before with
    | zero => cases read
    | succ before => exact ⟨before,Nat.succ.inj taken,read⟩

/-- More cycles go on where fewer of them have been used up. -/
theorem course_used (more : Nat) (used : (course cycles machine lines).ending = .cyclesUsed) :
    course (cycles + more) machine lines =
      (course cycles machine lines).followed (course more (course cycles machine lines).machine
        (lines.drop (course cycles machine lines).prompts)) := by
  fun_induction course cycles machine lines with
  | case1 machine lines =>
    rw [Nat.zero_add]
    rfl
  | case2 | case4 | case5 => cases used
  | case3 cycles machine lines answer ih =>
    rw [Nat.succ_add,course_ran answer,Course.behind_followed,Course.prompts_running,ih used]
    rfl
  | case6 cycles machine answer line lines ih =>
    rw [Nat.succ_add,course_typed answer,Course.behind_followed,Course.prompts_awaitingKey,ih used]
    rfl

/-- Cycles that are not used up make no difference. -/
theorem course_ended (more : Nat) (ended : (course cycles machine lines).ending ≠ .cyclesUsed) :
    course (cycles + more) machine lines = course cycles machine lines := by
  fun_induction course cycles machine lines with
  | case1 => exact absurd rfl ended
  | case2 cycles machine lines fault answer => rw [Nat.succ_add,course_failed answer]
  | case3 cycles machine lines answer ih => rw [Nat.succ_add,course_ran answer,ih ended]
  | case4 cycles machine answer => rw [Nat.succ_add,course_dry answer]
  | case5 cycles machine answer lines => rw [Nat.succ_add,course_garbled answer]
  | case6 cycles machine answer line lines ih => rw [Nat.succ_add,course_typed answer,ih ended]

def exchanges (prompts : Nat) : List Interaction :=
  (List.replicate prompts [.print prompt,.readLine]).flatten

theorem exchanges_succ (prompts : Nat) :
    exchanges (prompts + 1) = [.print prompt,.readLine] ++ exchanges prompts := rfl

theorem exchanges_add (first second : Nat) :
    exchanges (first + second) = exchanges first ++ exchanges second := by
  rw [exchanges,← List.replicate_append_replicate,List.flatten_append]
  rfl

theorem count_exchanges (prompts : Nat) : (exchanges prompts).count .readLine = prompts := by
  induction prompts with
  | zero => rfl
  | succ prompts ih => rw [exchanges_succ,List.count_append,ih,Nat.add_comm]; rfl

theorem Transcript.input_exchanges (transcript : Transcript) (prompts : Nat) :
    (transcript.after (exchanges prompts)).input = transcript.input.drop prompts := by
  rw [after,count_exchanges]

/-- What a prompt leads to, if the recorded conversation does behind it what is told of it. -/
theorem records_asked {α : Type} {next : Option InputLine → StateT (List Interaction) (StateM Transcript) α}
    {transcript : Transcript} {value : α} {record : List Interaction}
    (goes : Records (next (transcript.input.head?.map .ofBytes))
      (transcript.after [.print prompt,.readLine]) value record) :
    Records (do
        (Transcript.terminal files).recorded.print prompt
        next (← (Transcript.terminal files).recorded.readLine))
      transcript value ([.print prompt,.readLine] ++ record) := by
  refine (records_print prompt transcript).bind ((records_readLine _).bind ?_)
  rw [← Transcript.after_append]
  exact goes

/-- A conversation does on its terminal what its course tells. -/
theorem records_converse (count : Nat) (machine : Machine) (transcript : Transcript) :
    let course := course count machine (transcript.input.map .ofBytes)
    Records (converse (Transcript.terminal files).recorded count machine) transcript
      (course.machine,course.ending) (exchanges course.prompts) := by
  induction count generalizing machine transcript with
  | zero => exact records_pure transcript _
  | succ count ih =>
    cases answer : machine.step.answer with
    | error fault =>
      simp only [converse,course_failed answer,answer]
      exact records_pure transcript _
    | ok status =>
      cases status with
      | running =>
        simp only [converse,course_ran answer,answer,Course.prompts_running]
        exact ih machine.step.machine transcript
      | awaitingKey =>
        simp only [converse,answer]
        obtain ⟨input,printed,complaints⟩ := transcript
        cases input with
        | nil =>
          rw [List.map_nil,course_dry answer]
          exact records_asked (records_pure _ _)
        | cons bytes input =>
          rw [List.map_cons]
          cases heard : InputLine.ofBytes bytes with
          | undecodable =>
            rw [course_garbled answer]
            refine records_asked ?_
            rw [List.head?_cons,Option.map_some,heard]
            exact records_pure _ _
          | text line =>
            rw [course_typed answer,Course.prompts_awaitingKey,exchanges_succ]
            refine records_asked ?_
            rw [List.head?_cons,Option.map_some,heard]
            simp only [typeLine_ok]
            exact ih _ _

/-- Without a record, a conversation does the same. -/
theorem converse_course (count : Nat) (machine : Machine) (transcript : Transcript) :
    (converse (Transcript.terminal files) count machine).run transcript =
      let course := course count machine (transcript.input.map .ofBytes)
      ((course.machine,course.ending),transcript.after (exchanges course.prompts)) := by
  rw [← erases_converse (Transcript.terminal files) count machine [],StateT.run_map,
    records_converse count machine transcript []]
  rfl

theorem converse_used {transcript : Transcript}
    (used : (course cycles machine (transcript.input.map .ofBytes)).ending = .cyclesUsed) (more : Nat) :
    (converse (Transcript.terminal files) (cycles + more) machine).run transcript =
      let course := course cycles machine (transcript.input.map .ofBytes)
      (converse (Transcript.terminal files) more course.machine).run
        (transcript.after (exchanges course.prompts)) := by
  simp only [converse_course,course_used more used,Transcript.input_exchanges,List.map_drop,
    Course.prompts_followed,exchanges_add,Transcript.after_append]
  rfl

end Chip8.CommandLine
