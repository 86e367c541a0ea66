import Chip8.Proofs.Machine.Independence
import Chip8.Proofs.Machine.Restarts

/-! Machines that differ in the sound timer alone. A tick tells whether that timer
has run out, and nothing else reads it, so that it stays the only difference until
it is set anew. -/
namespace Chip8

namespace Instruction
variable {instruction : Instruction}

theorem loaded_sounding (unset : ∀ x, instruction ≠ .setSound x) (registers : Registers)
    (timers : Timers) (level : UInt8) :
    instruction.loaded registers {timers with sound := level} =
      {instruction.loaded registers timers with sound := level} := by
  cases instruction with
  | setSound x => exact absurd rfl (unset x)
  | _ => rfl

end Instruction

namespace Machine
variable {machine first second : Machine} {request : Request} {word : UInt16}

def sounding (machine : Machine) (level : UInt8) : Machine :=
  machine.withTimers ({· with sound := level})

theorem same_sounding (machine : Machine) (level : UInt8) {part : Part} (other : part ≠ .sound) :
    part.Same machine (machine.sounding level) := by
  cases part with
  | sound => exact absurd rfl other
  | _ => rfl

/-- Machines that agree in all other parts differ in the sound timer alone. -/
theorem eq_sounding (apart : ∀ part : Part, part ≠ .sound → part.Same first second) :
    second = first.sounding second.registers.timers.sound := by
  refine Part.eq_of_same fun part => ?_
  by_cases sound : part = .sound
  · rw [sound]
    rfl
  · have agree := apart part sound
    cases part with
    | sound => exact absurd rfl sound
    | _ => exact agree

theorem Unseen.sounding (level : UInt8) : Unseen (·.sounding level) := ⟨fun _ => rfl,fun _ => rfl⟩

theorem ignores_sounding {instruction : Instruction} (unset : ∀ x, instruction ≠ .setSound x)
    (level : UInt8) : instruction.Ignores (·.sounding level) :=
  Instruction.ignores_withTimers (fun _ _ _ => rfl) fun registers timers =>
    Instruction.loaded_sounding unset registers timers level

/-- A word is executed alike, whether or not it sets the sound timer. -/
theorem execute_sounding (machine : Machine) (level : UInt8) (word : UInt16) :
    ∃ later, (machine.sounding level).execute word =
      {machine.execute word with machine := (machine.execute word).machine.sounding later} := by
  by_cases set : ∃ x, Instruction.decode word = .setSound x
  · obtain ⟨x,decoded⟩ := set
    cases activity : machine.activity with
    | running =>
      have same : (machine.sounding level).activity = .running := activity
      refine ⟨machine.registers.get x,?_⟩
      simp only [execute,activity,same,decoded]
      rfl
    | awaitingKey register =>
      have same : (machine.sounding level).activity = .awaitingKey register := activity
      refine ⟨level,?_⟩
      simp only [execute,activity,same]
  · have unset (x : Register) : Instruction.decode word ≠ .setSound x := fun decoded => set ⟨x,decoded⟩
    exact ⟨level,execute_ignored (.sounding level) (ignores_sounding unset level) machine⟩

theorem countInstruction_sounding (machine : Machine) (level : UInt8) :
    ∃ later, (machine.sounding level).countInstruction.machine =
      machine.countInstruction.machine.sounding later := by
  have drive : (machine.sounding level).settings.drive = machine.settings.drive := rfl
  have count : (machine.sounding level).sinceTick = machine.sinceTick := rfl
  rw [countInstruction_machine,countInstruction_machine,drive,count]
  cases (machine.settings.drive.advance machine.sinceTick).2 with
  | true => exact ⟨countDown level,rfl⟩
  | false => exact ⟨level,rfl⟩

theorem step_sounding (machine : Machine) (level : UInt8) :
    ∃ later, (machine.sounding level).step.answer = machine.step.answer ∧
      (machine.sounding level).step.machine = machine.step.machine.sounding later := by
  cases activity : machine.activity with
  | awaitingKey register =>
    have same : (machine.sounding level).activity = .awaitingKey register := activity
    obtain ⟨answer,left⟩ := step_parked activity
    obtain ⟨again,other⟩ := step_parked same
    have ticks : (machine.sounding level).settings.ticksWhileWaiting =
      machine.settings.ticksWhileWaiting := rfl
    rw [answer,left,again,other,ticks]
    split
    · obtain ⟨later,counted⟩ := countInstruction_sounding machine level
      exact ⟨later,rfl,counted⟩
    · exact ⟨level,rfl,rfl⟩
  | running =>
    have same : (machine.sounding level).activity = .running := activity
    cases found : machine.memory.readWord machine.registers.counter.toNat with
    | error fault =>
      have again : (machine.sounding level).memory.readWord
        (machine.sounding level).registers.counter.toNat = .error fault := found
      obtain ⟨answer,left⟩ := step_unreadable activity found
      obtain ⟨answer',left'⟩ := step_unreadable same again
      exact ⟨level,answer'.trans answer.symm,by rw [left,left']⟩
    | ok word =>
      have again : (machine.sounding level).memory.readWord
        (machine.sounding level).registers.counter.toNat = .ok word := found
      -- The word is the same. It may set the timer, and the count behind it may tick it once more.
      obtain ⟨later,executed⟩ := execute_sounding (machine.withRegisters .skip) level word
      have skipped : (machine.sounding level).withRegisters .skip =
        (machine.withRegisters .skip).sounding level := rfl
      simp only [step,activity,same,fetch_ok found,fetch_ok again,skipped,executed]
      cases ((machine.withRegisters .skip).execute word).answer with
      | error fault => exact ⟨later,rfl,rfl⟩
      | ok status =>
        obtain ⟨last,counted⟩ :=
          countInstruction_sounding ((machine.withRegisters .skip).execute word).machine later
        exact ⟨last,rfl,counted⟩

theorem timeless_sounding (timeless : request.Timeless) (machine : Machine) (level : UInt8) :
    ((machine.sounding level).serve request).answer = (machine.serve request).answer ∧
      ((machine.sounding level).serve request).machine =
        (machine.serve request).machine.sounding level := by
  have same := serve_withTimers timeless machine ({· with sound := level})
  exact ⟨congrArg (·.answer) same,congrArg (·.machine) same⟩

/-- A request leaves the sound timer the only difference, and only a tick answers to it. -/
theorem serve_sounding (machine : Machine) (level : UInt8) (request : Request) :
    ∃ later, (request ≠ .tick →
        ((machine.sounding level).serve request).answer = (machine.serve request).answer) ∧
      ((machine.sounding level).serve request).machine =
        (machine.serve request).machine.sounding later := by
  have aside (timeless : request.Timeless) := timeless_sounding timeless machine level
  cases request with
  | step =>
    obtain ⟨later,answer,left⟩ := step_sounding machine level
    exact ⟨later,fun _ => congrArg (Answer.ofExcept .status) answer,left⟩
  | execute word =>
    obtain ⟨later,same⟩ := execute_sounding machine level word
    have answer := congrArg (·.answer) same
    exact ⟨later,fun _ => congrArg (Answer.ofExcept .status) answer,congrArg (·.machine) same⟩
  | tick => exact ⟨countDown level,fun other => absurd rfl other,rfl⟩
  | reset entropy => exact ⟨0,fun _ => rfl,rfl⟩
  | _ => exact ⟨level,fun _ => (aside trivial).1,(aside trivial).2⟩

theorem after_sounding (machine : Machine) (level : UInt8) (history : List Request) :
    ∃ later, (machine.sounding level).after history = (machine.after history).sounding later := by
  induction history generalizing machine level with
  | nil => exact ⟨level,rfl⟩
  | cons request history ih =>
    obtain ⟨later,_,left⟩ := serve_sounding machine level request
    obtain ⟨last,same⟩ := ih (machine.serve request).machine later
    refine ⟨last,?_⟩
    change ((machine.sounding level).serve request).machine.after history = _
    rw [left]
    exact same

def SetsSound (machine : Machine) (request : Request) : Prop :=
  (∃ entropy, request = .reset entropy) ∨ ∃ word, machine.Executes request word ∧ OfForm "Fx18" word

theorem executes_sounding (executes : machine.Executes request word) (level : UInt8) :
    (machine.sounding level).Executes request word := by
  have other : request ≠ .tick := by
    rintro rfl
    rcases executes.taken with offered | ⟨stepping,_⟩
    · cases offered
    · cases stepping
  obtain ⟨_,answers,_⟩ := serve_sounding machine level request
  exact ⟨executes.running,executes.taken,by rw [answers other]; exact executes.accepted⟩

theorem decode_sets (fits : OfForm "Fx18" word) : ∃ x, Instruction.decode word = .setSound x := by
  obtain ⟨family,low⟩ := Instruction.family_low 0xF 0x18 fits (by decide)
  simp only [Instruction.decode,family,low]
  exact ⟨_,rfl⟩

theorem SetsSound.serve (sets : machine.SetsSound request) (level : UInt8) :
    ((machine.sounding level).serve request).machine = (machine.serve request).machine := by
  rcases sets with ⟨entropy,rfl⟩ | ⟨word,executes,fits⟩
  · rfl
  · obtain ⟨x,decoded⟩ := decode_sets fits
    obtain ⟨after,applied,left⟩ := executes.applied
    obtain ⟨other,again,behind⟩ := (executes_sounding executes level).applied
    have found : (machine.sounding level).behindWord request =
      (machine.behindWord request).sounding level := by cases request <;> rfl
    have same : other = after := by
      rw [found,decoded] at again
      rw [decoded] at applied
      exact Except.ok.inj (again.symm.trans applied)
    rw [left,behind,same]

/-- No part of a machine shows what its sound timer was, and no answer but that to a tick does. What
sets the timer makes the machines the same, whatever is asked of them later. -/
theorem sound_unheard {seed : UInt64} (seeded : first.settings.seed = some seed)
    (apart : ∀ part : Part, part ≠ .sound → part.Same first second) (history again : List Request)
    (alike : history.map Request.bare = again.map Request.bare) :
    (∀ part : Part, part ≠ .sound → part.Same (first.after history) (second.after again)) ∧
    (∀ request other : Request, request.bare = other.bare → request ≠ .tick →
      ((second.after again).serve other).answer = ((first.after history).serve request).answer) ∧
    ∀ past request rest, history = past ++ request :: rest → (first.after past).SetsSound request →
      second.after again = first.after history := by
  have settings : second.settings = first.settings := apart .settings (by simp)
  have reseeded : second.settings.seed = some seed := settings ▸ seeded
  have level := eq_sounding apart
  generalize second.registers.timers.sound = sound at level
  -- The entropy of resets is put aside first, so that both machines are asked the same.
  have same : second.after again = second.after history := by
    rw [← after_bare reseeded again,← alike,after_bare reseeded]
  rw [same,level]
  obtain ⟨later,behind⟩ := after_sounding first sound history
  refine ⟨fun part other => ?_,fun request other bare unticked => ?_,?_⟩
  · rw [behind]
    exact same_sounding _ later other
  · obtain ⟨_,answers,_⟩ := serve_sounding (first.after history) later request
    have lasting : ((first.sounding sound).after history).settings.seed = some seed := by
      rw [after_settings]
      exact seeded
    rw [← serve_bare lasting,← bare,serve_bare lasting,behind]
    exact answers unticked
  · rintro past request rest rfl sets
    obtain ⟨before,reached⟩ := after_sounding first sound past
    rw [after_append,after_append,reached]
    exact congrArg (·.after rest) (sets.serve before)

/-- One of two machines sounds. Their first step is the same but for that, and the next one sets the
sound timers of both. -/
theorem sound_unheard_ends :
    let first := (fresh {drive := .everyInstructions 1,seed := some 7} (Vector.replicate 8 0)).after
      [.load [0x60,0x05,0xF0,0x18]]
    let second := first.sounding 3
    (second.after [.step] ≠ first.after [.step]) ∧
      (second.after [.step]).registers.get 0 = (first.after [.step]).registers.get 0 ∧
      second.after [.step,.step] = first.after [.step,.step] := by
  intro first second
  have apart (part : Part) (other : part ≠ .sound) : part.Same first second :=
    same_sounding first 3 other
  have seeded : first.settings.seed = some 7 := rfl
  obtain ⟨same,_,_⟩ := sound_unheard seeded apart [.step] [.step] rfl
  obtain ⟨_,_,set⟩ := sound_unheard seeded apart [.step,.step] [.step,.step] rfl
  have executes : (first.after [.step]).Executes .step 0xF018 :=
    executed?_eq_some.mp (by decide +kernel)
  exact ⟨by decide +kernel,same (.general 0) (by decide),
    set [.step] .step [] rfl (.inr ⟨0xF018,executes,by decide⟩)⟩

end Machine

end Chip8
