import Chip8.Proofs.Machine.Retiming

/-! Changes of a machine that an instruction takes no notice of. What it neither
reads nor writes can change before it or behind it, so that the requests of a
host change places with the words that have nothing to do with them. -/
namespace Chip8

def Keypad.noting (pad : Keypad) (code : UInt8) (down : Bool) : Keypad :=
  match Key.ofCode? code with
  | some key => pad.set key down
  | none => pad

def Machine.withKeypad (machine : Machine) (change : Keypad → Keypad) : Machine :=
  {machine with keypad := change machine.keypad}

theorem Registers.calculate_jump (registers : Registers) (target : UInt16)
    (calculation : Calculation) (x y : Register) :
    (registers.jump target).calculate calculation x y =
      (registers.calculate calculation x y).jump target := by
  have same (z : Register) : (registers.jump target).get z = registers.get z := rfl
  simp only [calculate,same]
  cases calculation.flag? (registers.get x) (registers.get y) <;> rfl

namespace Instruction
variable {instruction : Instruction}

def Ignores (instruction : Instruction) (change : Machine → Machine) : Prop :=
  ∀ machine, instruction.apply (change machine) = (instruction.apply machine).map change

def Senses (instruction : Instruction) : Prop :=
  ∃ x, instruction = .skipIf (.keyDown x) ∨ instruction = .skipIf (.keyUp x)

theorem ignores_keypad (senseless : ¬instruction.Senses) (change : Keypad → Keypad) :
    instruction.Ignores (·.withKeypad change) := by
  intro machine
  cases instruction with
  | returnFromCall =>
    simp only [apply,Machine.withKeypad]
    cases machine.stack.pop <;> rfl
  | call target =>
    simp only [apply,Machine.withKeypad]
    cases machine.stack.push machine.registers.counter <;> rfl
  | skipIf condition =>
    have same : condition.holds machine.registers (change machine.keypad) =
        condition.holds machine.registers machine.keypad := by
      cases condition with
      | keyDown x => exact absurd ⟨x,.inl rfl⟩ senseless
      | keyUp x => exact absurd ⟨x,.inr rfl⟩ senseless
      | _ => rfl
    simp only [apply,Machine.withKeypad,same,Except.map]
    split <;> rfl
  | _ => rfl

theorem ignores_jump (unmoved : ¬instruction.Writes .counter) (target : UInt16) :
    instruction.Ignores (·.withRegisters (·.jump target)) := by
  intro machine
  cases instruction with
  | returnFromCall | call target => exact absurd (.inr rfl) unmoved
  | jump target | jumpOffset base | skipIf condition => exact absurd rfl unmoved
  | calculate calculation x y =>
    exact congrArg (fun registers => Except.ok {machine with registers})
      (Registers.calculate_jump machine.registers target calculation x y)
  | loadRegisters last =>
    simp only [apply,Machine.withRegisters,Registers.jump,Registers.fill,Registers.get,Except.map]
  | _ => rfl

theorem loaded_eq (undelayed : ¬instruction.Writes .delay) (unsounded : ¬instruction.Writes .sound)
    (registers : Registers) (timers : Timers) : instruction.loaded registers timers = timers := by
  cases instruction with
  | setDelay x => exact absurd rfl undelayed
  | setSound x => exact absurd rfl unsounded
  | _ => rfl

/-- A change of the timers is ignored by an instruction that loads them in the same way behind it. -/
theorem ignores_withTimers {change : Timers → Timers}
    (unread : ∀ x, instruction = .readDelay x → ∀ timers, (change timers).delay = timers.delay)
    (loads : ∀ registers timers,
      instruction.loaded registers (change timers) = change (instruction.loaded registers timers)) :
    instruction.Ignores (·.withTimers change) := by
  intro machine
  cases result : instruction.apply machine with
  | error fault =>
    have failing := apply_error_iff.mp result
    exact apply_error_iff.mpr failing
  | ok after =>
    have frame := apply_frame result
    have again : instruction.apply (machine.withTimers change) = _ :=
      apply_retimed (fun x same => unread x same _) result
    rw [again,loads,← apply_loaded result,← frame.settings,← frame.sinceTick]
    rfl

theorem ignores_tick (unread : ∀ x, instruction ≠ .readDelay x)
    (undelayed : ¬instruction.Writes .delay) (unsounded : ¬instruction.Writes .sound) :
    instruction.Ignores fun machine => machine.tick.machine := by
  have ignored : instruction.Ignores (·.withTimers (·.tick.1)) := by
    refine ignores_withTimers (fun x same => absurd same (unread x)) fun registers timers => ?_
    rw [loaded_eq undelayed unsounded,loaded_eq undelayed unsounded]
  exact ignored

end Instruction

structure Reply.Agrees {α : Type} (reply other : Reply α) : Prop where
  answer : reply.answer = other.answer
  log : reply.log = other.log

namespace Machine
variable {machine : Machine} {change : Machine → Machine} {word : UInt16} {first : Request}

structure Unseen (change : Machine → Machine) : Prop where
  activity : ∀ machine, (change machine).activity = machine.activity
  counter : ∀ machine, (change machine).registers.counter = machine.registers.counter

theorem Unseen.tick : Unseen fun machine => machine.tick.machine := ⟨fun _ => rfl,fun _ => rfl⟩

theorem Unseen.withKeypad (change : Keypad → Keypad) : Unseen (·.withKeypad change) :=
  ⟨fun _ => rfl,fun _ => rfl⟩

/-- A change that a word ignores can be made before the word is executed as well as behind it. -/
theorem execute_ignored (unseen : Unseen change) (ignored : (Instruction.decode word).Ignores change)
    (machine : Machine) :
    (change machine).execute word =
      {machine.execute word with machine := change (machine.execute word).machine} := by
  have activity := unseen.activity machine
  cases running : machine.activity with
  | awaitingKey register => simp only [execute,activity,running]
  | running =>
    have changed := ignored machine
    cases result : (Instruction.decode word).apply machine with
    | error fault =>
      rw [result] at changed
      simp only [execute,activity,running,changed,result,unseen.counter,Except.map]
    | ok after =>
      rw [result] at changed
      simp only [execute,activity,running,changed,result,unseen.counter,Except.map,status,
        unseen.activity after]

/-- Two requests are served in either order: the machine that they leave is the same, and each of
them is told the same, whether it comes first or second. -/
structure Commutes (machine : Machine) (first second : Request) : Prop where
  left : machine.after [first,second] = machine.after [second,first]
  former : ((machine.serve second).machine.serve first).Agrees (machine.serve first)
  latter : ((machine.serve first).machine.serve second).Agrees (machine.serve second)

/-- A request that makes a change of the machine commutes with a word that ignores the change. -/
theorem Commutes.of_ignored (unseen : Unseen change) (ignored : (Instruction.decode word).Ignores change)
    (before : (machine.serve first).machine = change machine)
    (behind : ((machine.execute word).machine.serve first).machine = change (machine.execute word).machine)
    (told : ((machine.execute word).machine.serve first).Agrees (machine.serve first)) :
    machine.Commutes first (.execute word) := by
  have later := execute_ignored unseen ignored machine
  refine ⟨?_,told,?_⟩
  · change ((machine.serve first).machine.execute word).machine =
      ((machine.execute word).machine.serve first).machine
    rw [before,behind,later]
  · rw [before]
    simp only [serve,Reply.map,later]
    exact ⟨rfl,rfl⟩

theorem decode_senseless (formless : ¬OfForms ["Ex9E","ExA1"] word) :
    ¬(Instruction.decode word).Senses := by
  rintro ⟨x,down | up⟩
  · exact formless ⟨"Ex9E",by simp,Instruction.decode_ofForm (congrArg Instruction.form? down)⟩
  · exact formless ⟨"ExA1",by simp,Instruction.decode_ofForm (congrArg Instruction.form? up)⟩

theorem tick_agrees {other : Machine} (same : Part.sound.Same machine other) :
    (other.serve .tick).Agrees (machine.serve .tick) := by
  have sound : other.registers.timers.sound = machine.registers.timers.sound := same
  simp only [serve,tick,Registers.tick,Timers.tick,Reply.map,sound]
  exact ⟨rfl,rfl⟩

theorem release_agrees (machine other : Machine) (code : UInt8) :
    (other.serve (.release code)).Agrees (machine.serve (.release code)) := by
  simp only [serve,Reply.map]
  cases named : Key.ofCode? code with
  | some key =>
    rw [release_named machine named,release_named other named]
    exact ⟨rfl,rfl⟩
  | none =>
    rw [release_unnamed machine named,release_unnamed other named]
    exact ⟨rfl,rfl⟩

theorem press_agrees {other : Machine} (same : other.activity = machine.activity) (code : UInt8) :
    (other.serve (.press code)).Agrees (machine.serve (.press code)) := by
  simp only [serve,Reply.map,press]
  cases Key.ofCode? code with
  | none => exact ⟨rfl,rfl⟩
  | some key =>
    simp only [resolveWait,same]
    cases machine.activity <;> exact ⟨rfl,rfl⟩

theorem serve_release (machine : Machine) (code : UInt8) :
    (machine.serve (.release code)).machine =
      machine.withKeypad (·.noting code false) := by
  simp only [serve,Reply.map,withKeypad,Keypad.noting]
  cases named : Key.ofCode? code with
  | some key => rw [release_named machine named]
  | none => rw [release_unnamed machine named]

theorem serve_press_running (running : machine.activity = .running) (code : UInt8) :
    (machine.serve (.press code)).machine =
      machine.withKeypad (·.noting code true) := by
  simp only [serve,Reply.map,withKeypad,Keypad.noting]
  cases named : Key.ofCode? code with
  | some key => rw [(press_named machine named).2,receive_running running]
  | none => rw [press_unnamed machine named]

theorem serve_tick (timeless : first.Timeless) (machine : Machine) :
    (machine.tick.machine.serve first).machine = (machine.serve first).machine.tick.machine :=
  congrArg Reply.machine (serve_withTimers timeless machine (·.tick.1))

theorem tick_commutes (machine : Machine) (unread : ¬OfForm "Fx07" word)
    (undelayed : ¬MayWrite word .delay) (unsounded : ¬MayWrite word .sound) :
    machine.Commutes .tick (.execute word) := by
  have ignored : (Instruction.decode word).Ignores fun machine => machine.tick.machine :=
    Instruction.ignores_tick (not_readDelay unread)
      (fun writes => undelayed (mayWrite_of_writes rfl writes))
      (fun writes => unsounded (mayWrite_of_writes rfl writes))
  exact .of_ignored .tick ignored rfl rfl (tick_agrees (machine.execute_same unsounded))

theorem release_commutes (machine : Machine) (code : UInt8)
    (senseless : ¬(Instruction.decode word).Senses) :
    machine.Commutes (.release code) (.execute word) :=
  .of_ignored (.withKeypad (·.noting code false)) (Instruction.ignores_keypad senseless _)
    (serve_release machine code) (serve_release _ code) (release_agrees machine _ code)

theorem press_commutes (running : machine.activity = .running) (code : UInt8)
    (senseless : ¬(Instruction.decode word).Senses) (parkless : ¬MayWrite word .activity) :
    machine.Commutes (.press code) (.execute word) := by
  have same : (machine.execute word).machine.activity = machine.activity :=
    show Part.activity.Same machine _ from machine.execute_same parkless
  exact .of_ignored (.withKeypad (·.noting code true)) (Instruction.ignores_keypad senseless _)
    (serve_press_running running code) (serve_press_running (same.trans running) code)
    (press_agrees same code)

theorem tick_commutes_press (machine : Machine) (code : UInt8) :
    machine.Commutes .tick (.press code) := by
  refine ⟨serve_tick (by trivial) machine,tick_agrees ?_,press_agrees ?_ code⟩
  · exact congrArg Timers.sound (Aside.received (press_received machine code)).timers
  · rfl

theorem tick_commutes_release (machine : Machine) (code : UInt8) :
    machine.Commutes .tick (.release code) := by
  refine ⟨serve_tick (by trivial) machine,tick_agrees ?_,release_agrees machine _ code⟩
  rw [serve_release]
  rfl

/-- What a host does in between changes places with every word that has nothing to do with it, and a
tick with a key. In either order the machine is the same behind both, and each of them is told the
same, refusals included. -/
theorem events_commute (machine : Machine) (word : UInt16) (code : UInt8) :
    (¬OfForms ["Fx07","Fx15","Fx18"] word → machine.Commutes .tick (.execute word)) ∧
    (¬OfForms ["Ex9E","ExA1"] word → machine.Commutes (.release code) (.execute word)) ∧
    (machine.activity = .running → ¬OfForms ["Ex9E","ExA1","Fx0A"] word →
      machine.Commutes (.press code) (.execute word)) ∧
    machine.Commutes .tick (.press code) ∧ machine.Commutes .tick (.release code) := by
  refine ⟨fun formless => ?_,fun formless => ?_,fun running formless => ?_,
    tick_commutes_press machine code,tick_commutes_release machine code⟩
  · exact tick_commutes machine (fun fits => formless ⟨"Fx07",by simp,fits⟩)
      (fun delays => formless (delays.mono (by simp))) fun sounds => formless (sounds.mono (by simp))
  · exact release_commutes machine code (decode_senseless formless)
  · exact press_commutes running code
      (decode_senseless fun senses => formless (senses.mono (by simp)))
      fun parks => formless (parks.mono (by simp))

/-- A call on a full stack is refused before a tick as it is behind it, and a key outside the pad is
refused before a jump as it is behind it. -/
theorem events_commute_refused :
    let machine := (fresh {} (Vector.replicate 8 0)).after (.replicate 16 (.execute 0x2300))
    (machine.execute 0x2300).answer = .error (.stackOverflow 16) ∧
      machine.Commutes .tick (.execute 0x2300) ∧ machine.Commutes (.release 0x10) (.execute 0x1300) ∧
      machine.Commutes (.press 0x10) (.execute 0x1300) := by
  intro machine
  have refused : (machine.execute 0x2300).answer = .error (.stackOverflow 16) := by decide +kernel
  have running : machine.activity = .running := by decide +kernel
  obtain ⟨ticked,_⟩ := events_commute machine 0x2300 0x10
  obtain ⟨_,released,pressed,_⟩ := events_commute machine 0x1300 0x10
  exact ⟨refused,ticked (by decide),released (by decide),pressed running (by decide)⟩

end Machine

end Chip8
