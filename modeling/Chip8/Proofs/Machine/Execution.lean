import Chip8.Machine.Execution

/-! What an instruction leaves of a machine: the settings, the keypad and the
count of instructions are never touched, and only one instruction parks. -/
namespace Chip8

structure Instruction.Frame (machine after : Machine) : Prop where
  settings : after.settings = machine.settings
  keypad : after.keypad = machine.keypad
  sinceTick : after.sinceTick = machine.sinceTick

namespace Instruction
variable {machine after : Machine}

theorem Frame.withRegisters (change : Registers → Registers) :
    Frame machine (machine.withRegisters change) := ⟨rfl,rfl,rfl⟩

theorem withRegisters_activity (change : Registers → Registers) :
    (machine.withRegisters change).activity = machine.activity := rfl

theorem withRegisters_stack (change : Registers → Registers) :
    (machine.withRegisters change).stack = machine.stack := rfl

theorem apply_returnFromCall (applied : apply machine .returnFromCall = .ok after) :
    ∃ address stack, machine.stack.pop = .ok (address,stack) ∧
      after = {machine with stack,registers := machine.registers.jump address} := by
  simp only [apply] at applied
  cases popped : machine.stack.pop with
  | error fault =>
    rw [popped] at applied
    cases applied
  | ok pair =>
    rw [popped] at applied
    cases applied
    exact ⟨pair.1,pair.2,rfl,rfl⟩

theorem apply_call {target : UInt16} (applied : apply machine (.call target) = .ok after) :
    ∃ stack, machine.stack.push machine.registers.counter = .ok stack ∧
      after = {machine with stack,registers := machine.registers.jump target} := by
  simp only [apply] at applied
  cases pushed : machine.stack.push machine.registers.counter with
  | error fault =>
    rw [pushed] at applied
    cases applied
  | ok stack =>
    rw [pushed] at applied
    cases applied
    exact ⟨stack,rfl,rfl⟩

theorem apply_frame {instruction : Instruction} (applied : instruction.apply machine = .ok after) :
    Frame machine after := by
  cases instruction with
  | returnFromCall =>
    obtain ⟨address,stack,popped,rfl⟩ := apply_returnFromCall applied
    exact ⟨rfl,rfl,rfl⟩
  | call target =>
    obtain ⟨stack,pushed,rfl⟩ := apply_call applied
    exact ⟨rfl,rfl,rfl⟩
  | skipIf condition =>
    cases applied
    split
    · exact .withRegisters _
    · exact ⟨rfl,rfl,rfl⟩
  | loadRegisters last =>
    cases applied
    exact .withRegisters _
  | _ =>
    cases applied
    exact ⟨rfl,rfl,rfl⟩

/-- An instruction that changes the activity only parks the machine. -/
theorem apply_activity {instruction : Instruction} (applied : instruction.apply machine = .ok after) :
    after.activity = machine.activity ∨
      ∃ x, instruction = .awaitKey x ∧ after = {machine with activity := .awaitingKey x} := by
  cases instruction with
  | returnFromCall =>
    obtain ⟨address,stack,popped,rfl⟩ := apply_returnFromCall applied
    exact .inl rfl
  | call target =>
    obtain ⟨stack,pushed,rfl⟩ := apply_call applied
    exact .inl rfl
  | skipIf condition =>
    cases applied
    left
    split <;> rfl
  | loadRegisters last =>
    cases applied
    exact .inl (withRegisters_activity _)
  | awaitKey x =>
    cases applied
    exact .inr ⟨x,rfl,rfl⟩
  | _ =>
    cases applied
    exact .inl rfl

end Instruction

namespace Machine
variable {machine : Machine}

theorem status_running (running : machine.activity = .running) : machine.status = .running := by
  rw [status,running]
  rfl

theorem status_awaitingKey {register : Register} (waiting : machine.activity = .awaitingKey register) :
    machine.status = .awaitingKey := by
  rw [status,waiting]
  rfl

inductive ExecuteCase (machine : Machine) (word : UInt16) : Prop where
  | parked (register : Register) (waiting : machine.activity = .awaitingKey register)
      (answer : (machine.execute word).answer = .ok .awaitingKey)
      (left : (machine.execute word).machine = machine)
  | refused (fault : Fault) (running : machine.activity = .running)
      (rejected : (Instruction.decode word).apply machine = .error fault)
      (answer : (machine.execute word).answer = .error fault)
      (left : (machine.execute word).machine = machine)
  | executed (after : Machine) (running : machine.activity = .running)
      (applied : (Instruction.decode word).apply machine = .ok after)
      (answer : (machine.execute word).answer = .ok after.status)
      (left : (machine.execute word).machine = after)

theorem execute_ok (machine : Machine) {word : UInt16} {after : Machine} (running : machine.activity = .running)
    (applied : (Instruction.decode word).apply machine = .ok after) :
    (machine.execute word).answer = .ok after.status ∧ (machine.execute word).machine = after := by
  constructor <;> simp only [execute,running,applied]

/-- A word that does not park a running machine is executed and leaves it running. -/
theorem execute_runs {word : UInt16} {instruction : Instruction} {after : Machine}
    (running : machine.activity = .running) (decoded : Instruction.decode word = instruction)
    (applied : instruction.apply machine = .ok after) (runs : after.activity = .running) :
    (machine.execute word).answer = .ok .running ∧ (machine.execute word).machine = after := by
  subst decoded
  obtain ⟨answer,left⟩ := execute_ok machine running applied
  exact ⟨answer.trans (congrArg Except.ok (status_running runs)),left⟩

theorem execute_error (machine : Machine) {word : UInt16} {fault : Fault} (running : machine.activity = .running)
    (rejected : (Instruction.decode word).apply machine = .error fault) :
    (machine.execute word).answer = .error fault ∧ (machine.execute word).machine = machine := by
  constructor <;> simp only [execute,running,rejected]

theorem execute_parked {register : Register} (waiting : machine.activity = .awaitingKey register)
    (word : UInt16) :
    (machine.execute word).answer = .ok .awaitingKey ∧ (machine.execute word).machine = machine := by
  constructor <;> simp only [execute,waiting]

theorem execute_cases (machine : Machine) (word : UInt16) : ExecuteCase machine word := by
  cases activity : machine.activity with
  | awaitingKey register =>
    obtain ⟨answer,left⟩ := execute_parked activity word
    exact .parked register activity answer left
  | running =>
    cases result : (Instruction.decode word).apply machine with
    | error fault =>
      obtain ⟨answer,left⟩ := execute_error machine activity result
      exact .refused fault activity result answer left
    | ok after =>
      obtain ⟨answer,left⟩ := execute_ok machine activity result
      exact .executed after activity result answer left

end Machine

end Chip8
