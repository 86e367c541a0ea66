import Chip8.Proofs.Instruction.Words
import Chip8.Proofs.Machine.Refusal
import Chip8.Proofs.Memory.Words

/-! When a cycle fails. It fails at the end of memory, at a return with an
empty stack and at a call with a full one, and in no other case. What has
failed once fails again. -/
namespace Chip8

namespace Instruction
variable {machine : Machine} {fault : Fault}

theorem apply_returnFromCall_error :
    apply machine .returnFromCall = .error fault ↔ machine.stack.pop = .error fault := by
  simp only [apply]
  cases machine.stack.pop with
  | ok pair => constructor <;> intro same <;> cases same
  | error reason => constructor <;> intro same <;> cases same <;> rfl

theorem apply_call_error {target : UInt16} :
    apply machine (.call target) = .error fault ↔
      machine.stack.push machine.registers.counter = .error fault := by
  simp only [apply]
  cases machine.stack.push machine.registers.counter with
  | ok stack => constructor <;> intro same <;> cases same
  | error reason => constructor <;> intro same <;> cases same <;> rfl

/-- A return and a call are the only instructions that can fail. -/
theorem apply_error_iff {instruction : Instruction} :
    instruction.apply machine = .error fault ↔
      instruction = .returnFromCall ∧ machine.stack.depth.val = 0 ∧ fault = .stackUnderflow ∨
      (∃ target, instruction = .call target) ∧ machine.stack.depth.val = 16 ∧
        fault = .stackOverflow 16 := by
  cases instruction with
  | returnFromCall =>
    rw [apply_returnFromCall_error,CallStack.pop_error_iff]
    simp
  | call target =>
    rw [apply_call_error,CallStack.push_error_iff]
    simp
  | _ => simp [apply]

end Instruction

namespace Machine
variable {machine : Machine} {fault : Fault}

/-- The faults that wait for the next cycle of a machine. -/
inductive Failing (machine : Machine) : Fault → Prop where
  | outside (far : 0xFFF ≤ machine.registers.counter.toNat) :
      Failing machine (.addressOutOfRange (max machine.registers.counter.toNat 0x1000))
  | bare (inside : machine.registers.counter.toNat ≤ 0xFFE)
      (back : machine.memory.wordAt machine.registers.counter.toNat = 0x00EE)
      (empty : machine.stack.depth.val = 0) : Failing machine .stackUnderflow
  | full (target : UInt16) (inside : machine.registers.counter.toNat ≤ 0xFFE)
      (short : target < 0x1000)
      (call : machine.memory.wordAt machine.registers.counter.toNat = 0x2000 + target)
      (deep : machine.stack.depth.val = 16) : Failing machine (.stackOverflow 16)

theorem failing_of_rejected {word : UInt16}
    (found : machine.memory.readWord machine.registers.counter.toNat = .ok word)
    (rejected : (Instruction.decode word).apply (machine.withRegisters .skip) = .error fault) :
    machine.Failing fault := by
  obtain ⟨short,read⟩ := Memory.readWord_ok_iff.mp found
  have inside : machine.registers.counter.toNat ≤ 0xFFE := by omega
  rcases Instruction.apply_error_iff.mp rejected with ⟨decoded,empty,rfl⟩ | ⟨⟨target,decoded⟩,deep,rfl⟩
  · exact .bare inside (read.trans (Instruction.decode_returnFromCall.mp decoded)) empty
  · obtain ⟨small,call⟩ := Instruction.decode_call.mp decoded
    exact .full target inside small (read.trans call) deep

theorem step_failing (running : machine.activity = .running) (failing : machine.Failing fault) :
    machine.step.answer = .error fault := by
  cases failing with
  | outside far =>
    exact (step_unreadable running (Memory.readWord_error_iff.mpr ⟨by omega,rfl⟩)).1
  | bare inside back empty =>
    have found := Memory.readWord_ok_iff.mpr ⟨by omega,back⟩
    have decoded := Instruction.decode_returnFromCall.mpr rfl
    exact (step_refused running found (Instruction.apply_error_iff.mpr (.inl ⟨decoded,empty,rfl⟩))).1
  | full target inside short call deep =>
    have found := Memory.readWord_ok_iff.mpr ⟨by omega,call⟩
    have decoded := Instruction.decode_call.mpr ⟨short,rfl⟩
    exact (step_refused running found
      (Instruction.apply_error_iff.mpr (.inr ⟨⟨target,decoded⟩,deep,rfl⟩))).1

theorem step_error_iff :
    machine.step.answer = .error fault ↔ machine.activity = .running ∧ machine.Failing fault := by
  constructor
  · intro failed
    cases machine.step_cases with
    | parked register waiting answer left =>
      rw [answer] at failed
      cases failed
    | unreadable reason running missing answer left =>
      obtain ⟨far,same⟩ := Memory.readWord_error_iff.mp missing
      rw [answer,same] at failed
      cases failed
      exact ⟨running,.outside (by omega)⟩
    | refused word reason running found rejected answer left =>
      rw [answer] at failed
      cases failed
      exact ⟨running,failing_of_rejected found rejected⟩
    | executed word after running found applied answer left =>
      rw [answer] at failed
      cases failed
  · rintro ⟨running,failing⟩
    exact step_failing running failing

theorem replies_stuck {request : Request} (stays : (machine.serve request).machine = machine)
    (count : Nat) :
    machine.replies (List.replicate count request) = List.replicate count (machine.serve request) := by
  induction count with
  | zero => rfl
  | succ count ih =>
    simp only [List.replicate_succ,replies,stays,ih]

/-- A cycle fails for a machine that runs, with the faults of `Failing` and with no other, and then
it fails with the same fault as often as it is tried again. -/
theorem step_fails_exactly (machine : Machine) (fault : Fault) :
    (machine.step.answer = .error fault ↔ machine.activity = .running ∧ machine.Failing fault) ∧
    (machine.step.answer = .error fault → ∀ count,
      ∀ reply ∈ machine.step.machine.replies (List.replicate count .step),
        reply.answer = .fault fault) := by
  refine ⟨step_error_iff,?_⟩
  intro failed count reply member
  have stays : (machine.serve .step).machine = machine := step_fault failed
  change reply ∈ (machine.serve .step).machine.replies _ at member
  rw [stays,replies_stuck stays] at member
  rw [List.eq_of_mem_replicate member]
  exact congrArg (Answer.ofExcept .status) failed

/-- A jump to the end of memory, behind which no word is left to read. -/
theorem step_fails_exactly_far :
    let machine := (Machine.fresh {} (Vector.replicate 8 0)).after
      [.load [0x60,0xFF,0xBF,0xFF],.step,.step]
    machine.step.answer = .error (.addressOutOfRange 0x10FE) ∧
      ∀ reply ∈ machine.step.machine.replies [.step,.step,.step],
        reply.answer = .fault (.addressOutOfRange 0x10FE) := by
  intro machine
  have counter : machine.registers.counter.toNat = 0x10FE := by decide +kernel
  have failing : machine.Failing (.addressOutOfRange (max machine.registers.counter.toNat 0x1000)) :=
    .outside (by omega)
  rw [counter] at failing
  obtain ⟨exactly,again⟩ := step_fails_exactly machine (.addressOutOfRange 0x10FE)
  have failed := exactly.mpr ⟨by decide +kernel,failing⟩
  exact ⟨failed,again failed 3⟩

end Machine

end Chip8
