import Chip8.Machine.Cycle
import Chip8.Proofs.Machine.Execution

/-! What a cycle leaves of a machine, and the invariant of its count: it stays
below the period, and a host that drives the timers keeps it at zero. -/
namespace Chip8

def TimerDrive.Admits : TimerDrive → Nat → Prop
  | .host, count => count = 0
  | .everyInstructions period, count => count < max period.toNat 1

theorem TimerDrive.admits_zero (drive : TimerDrive) : drive.Admits 0 := by
  cases drive with
  | host => rfl
  | everyInstructions period => exact Nat.lt_of_lt_of_le Nat.zero_lt_one (Nat.le_max_right _ 1)

theorem TimerDrive.admits_advance {drive : TimerDrive} {count : Nat} (admitted : drive.Admits count) :
    drive.Admits (drive.advance count).1 := by
  cases drive with
  | host => exact admitted
  | everyInstructions period =>
    simp only [advance]
    split
    · exact admits_zero _
    · exact Nat.lt_of_not_le ‹_›

namespace Machine
variable {machine : Machine}

theorem fetch_ok {word : UInt16}
    (found : machine.memory.readWord machine.registers.counter.toNat = .ok word) :
    machine.fetch = ⟨.ok word,machine.withRegisters .skip,[]⟩ := by
  simp only [fetch,found]

theorem fetch_error {fault : Fault}
    (missing : machine.memory.readWord machine.registers.counter.toNat = .error fault) :
    machine.fetch = ⟨.error fault,machine,[]⟩ := by
  simp only [fetch,missing]

theorem countInstruction_machine (machine : Machine) :
    machine.countInstruction.machine = {machine with
      sinceTick := (machine.settings.drive.advance machine.sinceTick).1
      registers := if (machine.settings.drive.advance machine.sinceTick).2
        then machine.registers.tick.1 else machine.registers} := by
  simp only [countInstruction]
  cases (machine.settings.drive.advance machine.sinceTick).2 <;> rfl

theorem countInstruction_host (hosted : machine.settings.drive = .host) :
    machine.countInstruction.machine = machine := by
  rw [countInstruction_machine,hosted]
  rfl

inductive StepCase (machine : Machine) : Prop where
  | parked (register : Register) (waiting : machine.activity = .awaitingKey register)
      (answer : machine.step.answer = .ok .awaitingKey)
      (left : machine.step.machine =
        if machine.settings.ticksWhileWaiting then machine.countInstruction.machine else machine)
  | unreadable (fault : Fault) (running : machine.activity = .running)
      (missing : machine.memory.readWord machine.registers.counter.toNat = .error fault)
      (answer : machine.step.answer = .error fault) (left : machine.step.machine = machine)
  | refused (word : UInt16) (fault : Fault) (running : machine.activity = .running)
      (found : machine.memory.readWord machine.registers.counter.toNat = .ok word)
      (rejected : (Instruction.decode word).apply (machine.withRegisters .skip) = .error fault)
      (answer : machine.step.answer = .error fault) (left : machine.step.machine = machine)
  | executed (word : UInt16) (after : Machine) (running : machine.activity = .running)
      (found : machine.memory.readWord machine.registers.counter.toNat = .ok word)
      (applied : (Instruction.decode word).apply (machine.withRegisters .skip) = .ok after)
      (answer : machine.step.answer = .ok after.status)
      (left : machine.step.machine = after.countInstruction.machine)

theorem step_parked {register : Register} (waiting : machine.activity = .awaitingKey register) :
    machine.step.answer = .ok .awaitingKey ∧ machine.step.machine =
      if machine.settings.ticksWhileWaiting then machine.countInstruction.machine else machine := by
  constructor <;> simp only [step,waiting] <;> split <;> rfl

theorem step_unreadable {fault : Fault} (running : machine.activity = .running)
    (missing : machine.memory.readWord machine.registers.counter.toNat = .error fault) :
    machine.step.answer = .error fault ∧ machine.step.machine = machine := by
  constructor <;> simp only [step,running,fetch_error missing]

section Word
variable {word : UInt16} (running : machine.activity = .running)
  (found : machine.memory.readWord machine.registers.counter.toNat = .ok word)
include running found

theorem step_refused {fault : Fault}
    (rejected : (Instruction.decode word).apply (machine.withRegisters .skip) = .error fault) :
    machine.step.answer = .error fault ∧ machine.step.machine = machine := by
  have runs : (machine.withRegisters .skip).activity = .running := running
  -- The cycle has moved the counter by then, and puts it back.
  constructor <;> simp only [step,running,fetch_ok found,execute,runs,rejected]
  rfl

theorem step_executed {after : Machine}
    (applied : (Instruction.decode word).apply (machine.withRegisters .skip) = .ok after) :
    machine.step.answer = .ok after.status ∧
      machine.step.machine = after.countInstruction.machine := by
  have runs : (machine.withRegisters .skip).activity = .running := running
  constructor <;> simp only [step,running,fetch_ok found,execute,runs,applied]

end Word

theorem step_cases (machine : Machine) : StepCase machine := by
  cases activity : machine.activity with
  | awaitingKey register =>
    obtain ⟨answer,left⟩ := step_parked activity
    exact .parked register activity answer left
  | running =>
    cases found : machine.memory.readWord machine.registers.counter.toNat with
    | error fault =>
      obtain ⟨answer,left⟩ := step_unreadable activity found
      exact .unreadable fault activity found answer left
    | ok word =>
      cases result : (Instruction.decode word).apply (machine.withRegisters .skip) with
      | error fault =>
        obtain ⟨answer,left⟩ := step_refused activity found result
        exact .refused word fault activity found result answer left
      | ok after =>
        obtain ⟨answer,left⟩ := step_executed activity found result
        exact .executed word after activity found result answer left

@[simp] theorem countInstruction_stack (machine : Machine) :
    machine.countInstruction.machine.stack = machine.stack := by
  rw [countInstruction_machine]

@[simp] theorem countInstruction_counter (machine : Machine) :
    machine.countInstruction.machine.registers.counter = machine.registers.counter := by
  rw [countInstruction_machine]
  dsimp only
  split <;> rfl

structure Counting (machine after : Machine) : Prop where
  settings : after.settings = machine.settings
  sinceTick : after.sinceTick = machine.sinceTick ∨
    after.sinceTick = (machine.settings.drive.advance machine.sinceTick).1 ∨ after.sinceTick = 0

theorem Counting.unchanged {after : Machine} (settings : after.settings = machine.settings)
    (sinceTick : after.sinceTick = machine.sinceTick) : machine.Counting after :=
  ⟨settings,.inl sinceTick⟩

theorem Counting.countInstruction {after : Machine} (settings : after.settings = machine.settings)
    (sinceTick : after.sinceTick = machine.sinceTick) :
    machine.Counting after.countInstruction.machine := by
  rw [countInstruction_machine]
  refine ⟨settings,.inr (.inl ?_)⟩
  rw [settings,sinceTick]

def Counted (machine : Machine) : Prop := machine.settings.drive.Admits machine.sinceTick

theorem fresh_counted (settings : Settings) (entropy : ChaCha.Key) :
    (fresh settings entropy).Counted :=
  TimerDrive.admits_zero _

theorem Counted.of_counting {after : Machine} (counted : machine.Counted)
    (counting : machine.Counting after) : after.Counted := by
  unfold Counted
  rw [counting.settings]
  rcases counting.sinceTick with same | advanced | zero
  · rw [same]
    exact counted
  · rw [advanced]
    exact TimerDrive.admits_advance counted
  · rw [zero]
    exact TimerDrive.admits_zero _

end Machine

end Chip8
