import Chip8.Proofs.Machine.Parts
import Chip8.Proofs.Machine.Histories
import Chip8.Proofs.Machine.Faults

/-! Machines that keep time in different ways. One instruction alone reads a
timer, so that machines which never execute it differ in nothing but their time. -/
namespace Chip8

namespace Machine

def retimed (machine : Machine) (settings : Settings) (count : Nat) (timers : Timers) : Machine :=
  {machine with settings,sinceTick := count,registers := {machine.registers with timers}}

def withTimers (machine : Machine) (change : Timers → Timers) : Machine :=
  machine.retimed machine.settings machine.sinceTick (change machine.registers.timers)

end Machine

def Instruction.loaded (registers : Registers) (timers : Timers) : Instruction → Timers
  | .setDelay x => {timers with delay := registers.get x}
  | .setSound x => {timers with sound := registers.get x}
  | _ => timers

theorem Registers.calculate_retimed (registers : Registers) (timers : Timers)
    (calculation : Calculation) (x y : Register) :
    ({registers with timers} : Registers).calculate calculation x y =
      {registers.calculate calculation x y with timers} := by
  have same (z : Register) : ({registers with timers} : Registers).get z = registers.get z := rfl
  simp only [calculate,same]
  cases calculation.flag? (registers.get x) (registers.get y) <;> rfl

namespace Instruction
variable {machine after : Machine} {instruction : Instruction}

theorem holds_retimed (condition : Condition) (machine : Machine) (settings : Settings) (count : Nat)
    (timers : Timers) :
    condition.holds (machine.retimed settings count timers).registers
      (machine.retimed settings count timers).keypad =
        condition.holds machine.registers machine.keypad := by
  cases condition <;> rfl

theorem apply_retimed {settings : Settings} {count : Nat} {timers : Timers}
    (unread : ∀ x, instruction = .readDelay x → timers.delay = machine.registers.timers.delay)
    (applied : instruction.apply machine = .ok after) :
    instruction.apply (machine.retimed settings count timers) =
      .ok (after.retimed settings count (instruction.loaded machine.registers timers)) := by
  cases instruction with
  | returnFromCall =>
    obtain ⟨address,stack,popped,rfl⟩ := apply_returnFromCall applied
    have again : (machine.retimed settings count timers).stack.pop = .ok (address,stack) := popped
    simp only [apply,again]
    rfl
  | call target =>
    obtain ⟨stack,pushed,rfl⟩ := apply_call applied
    have again : (machine.retimed settings count timers).stack.push
      (machine.retimed settings count timers).registers.counter = .ok stack := pushed
    simp only [apply,again]
    rfl
  | skipIf condition =>
    cases applied
    simp only [apply,holds_retimed]
    split <;> rfl
  | calculate calculation x y =>
    cases applied
    exact congrArg (fun registers => Except.ok {machine with settings,sinceTick := count,registers})
      (Registers.calculate_retimed ..)
  | readDelay x =>
    cases applied
    have delay : (machine.retimed settings count timers).registers.timers.delay =
      machine.registers.timers.delay := unread x rfl
    simp only [apply,Machine.withRegisters,delay]
    rfl
  | loadRegisters last =>
    cases applied
    simp only [apply,Machine.withRegisters,Machine.retimed,Registers.fill,loaded,Registers.get]
  | _ =>
    cases applied
    rfl

/-- The timers of a machine itself are loaded in the same way. -/
theorem apply_loaded (applied : instruction.apply machine = .ok after) :
    after.registers.timers = instruction.loaded machine.registers machine.registers.timers := by
  have again : instruction.apply (machine.withTimers id) = _ :=
    apply_retimed (fun _ _ => rfl) applied
  have same := applied.symm.trans again
  exact congrArg (·.registers.timers) (Except.ok.inj same)

end Instruction

namespace Machine
variable {first second : Machine} {request : Request}

/-- The machines differ in nothing but their time. -/
def Alike (first second : Machine) : Prop :=
  ∃ settings count timers, settings.seed = first.settings.seed ∧
    second = first.retimed settings count timers

structure Matching {α : Type} (former latter : Reply α) : Prop where
  answer : latter.answer = former.answer
  alike : former.machine.Alike latter.machine

theorem Matching.map {α β : Type} {former latter : Reply α} (matching : Matching former latter)
    (change : α → β) : Matching (former.map change) (latter.map change) :=
  ⟨congrArg change matching.answer,matching.alike⟩

theorem Matching.of_replies {α : Type} {former latter : Reply α} {answer : α}
    (left : former.answer = answer ∧ former.machine = first)
    (right : latter.answer = answer ∧ latter.machine = second) (alike : first.Alike second) :
    Matching former latter := by
  refine ⟨right.1.trans left.1.symm,?_⟩
  rw [left.2,right.2]
  exact alike

def Ages (machine after : Machine) : Prop :=
  ∃ count timers, after = machine.retimed machine.settings count timers

theorem Ages.refl (machine : Machine) : machine.Ages machine := ⟨_,_,rfl⟩

theorem Ages.countInstruction (machine : Machine) : machine.Ages machine.countInstruction.machine := by
  rw [countInstruction_machine]
  split
  · exact ⟨_,_,rfl⟩
  · exact ⟨_,_,rfl⟩

theorem Ages.parked (machine : Machine) : machine.Ages
    (if machine.settings.ticksWhileWaiting then machine.countInstruction.machine else machine) := by
  split
  · exact .countInstruction machine
  · exact .refl machine

theorem Alike.ages {older later : Machine} (alike : first.Alike second) (former : first.Ages older)
    (latter : second.Ages later) : older.Alike later := by
  obtain ⟨settings,count,timers,seed,rfl⟩ := alike
  obtain ⟨_,_,rfl⟩ := former
  obtain ⟨count,timers,rfl⟩ := latter
  exact ⟨settings,count,timers,seed,rfl⟩

theorem Alike.apply {instruction : Instruction} {after : Machine} (alike : first.Alike second)
    (unread : ∀ x, instruction ≠ .readDelay x) (applied : instruction.apply first = .ok after) :
    ∃ other, instruction.apply second = .ok other ∧ after.Alike other := by
  obtain ⟨settings,count,timers,seed,rfl⟩ := alike
  refine ⟨_,Instruction.apply_retimed (fun x same => absurd same (unread x)) applied,?_⟩
  exact ⟨settings,count,_,seed.trans (congrArg _ (Instruction.apply_frame applied).settings.symm),rfl⟩

theorem Alike.skip (alike : first.Alike second) :
    (first.withRegisters .skip).Alike (second.withRegisters .skip) := by
  obtain ⟨settings,count,timers,seed,rfl⟩ := alike
  exact ⟨settings,count,timers,seed,rfl⟩

theorem not_readDelay {word : UInt16} (other : ¬OfForm "Fx07" word) (x : Register) :
    Instruction.decode word ≠ .readDelay x :=
  fun decoded => other (Instruction.decode_ofForm (congrArg Instruction.form? decoded))

theorem Alike.error {instruction : Instruction} {fault : Fault} (alike : first.Alike second)
    (rejected : instruction.apply first = .error fault) : instruction.apply second = .error fault := by
  obtain ⟨settings,count,timers,seed,rfl⟩ := alike
  have failing := Instruction.apply_error_iff.mp rejected
  exact Instruction.apply_error_iff.mpr failing

theorem Alike.activity (alike : first.Alike second) : second.activity = first.activity := by
  obtain ⟨settings,count,timers,seed,rfl⟩ := alike
  rfl

theorem Alike.readWord (alike : first.Alike second) :
    second.memory.readWord second.registers.counter.toNat =
      first.memory.readWord first.registers.counter.toNat := by
  obtain ⟨settings,count,timers,seed,rfl⟩ := alike
  rfl

theorem Alike.status (alike : first.Alike second) : second.status = first.status :=
  congrArg Activity.status alike.activity

theorem Alike.execute (alike : first.Alike second) {word : UInt16}
    (unread : ∀ other, first.Executes (.execute word) other → ¬OfForm "Fx07" other) :
    Matching (first.execute word) (second.execute word) := by
  have activity := alike.activity
  cases first.execute_cases word with
  | parked register waiting answer left =>
    exact .of_replies ⟨answer,left⟩ (execute_parked (activity.trans waiting) word) alike
  | refused fault running rejected answer left =>
    have again := execute_error second (activity.trans running) (alike.error rejected)
    exact .of_replies ⟨answer,left⟩ again alike
  | executed after running applied answer left =>
    have executes : first.Executes (.execute word) word :=
      ⟨running,.inl rfl,_,congrArg (Answer.ofExcept .status) answer⟩
    obtain ⟨other,applies,results⟩ := alike.apply (not_readDelay (unread word executes)) applied
    have again := execute_ok second (activity.trans running) applies
    rw [results.status] at again
    exact .of_replies ⟨answer,left⟩ again results

theorem Alike.step (alike : first.Alike second)
    (unread : ∀ word, first.Executes .step word → ¬OfForm "Fx07" word) :
    Matching first.step second.step := by
  have activity := alike.activity
  have readWord := alike.readWord
  cases first.step_cases with
  | parked register waiting answer left =>
    exact .of_replies ⟨answer,left⟩ (step_parked (activity.trans waiting))
      (alike.ages (.parked first) (.parked second))
  | unreadable fault running missing answer left =>
    have again := step_unreadable (activity.trans running) (readWord.trans missing)
    exact .of_replies ⟨answer,left⟩ again alike
  | refused word fault running found rejected answer left =>
    have again := step_refused (activity.trans running) (readWord.trans found)
      (alike.skip.error rejected)
    exact .of_replies ⟨answer,left⟩ again alike
  | executed word after running found applied answer left =>
    have executes : first.Executes .step word :=
      ⟨running,.inr ⟨rfl,found⟩,_,congrArg (Answer.ofExcept .status) answer⟩
    obtain ⟨other,applies,results⟩ := alike.skip.apply (not_readDelay (unread word executes)) applied
    have again := step_executed (activity.trans running) (readWord.trans found) applies
    rw [results.status] at again
    exact .of_replies ⟨answer,left⟩ again
      (results.ages (.countInstruction after) (.countInstruction other))

theorem serve_retimed (timeless : request.Timeless) (machine : Machine) (settings : Settings)
    (count : Nat) (timers : Timers) :
    (machine.retimed settings count timers).serve request =
      {machine.serve request with
        machine := (machine.serve request).machine.retimed settings count timers} := by
  have activity : (machine.retimed settings count timers).activity = machine.activity := rfl
  have memory : (machine.retimed settings count timers).memory = machine.memory := rfl
  have keypad : (machine.retimed settings count timers).keypad = machine.keypad := rfl
  have counter : (machine.retimed settings count timers).registers.counter =
    machine.registers.counter := rfl
  cases request with
  | load program =>
    simp only [serve,Reply.map,load,memory]
    cases machine.memory.load program <;> rfl
  | fetch =>
    simp only [serve,Reply.map,fetch,memory,counter]
    cases machine.memory.readWord machine.registers.counter.toNat <;> rfl
  | press code =>
    simp only [serve,Reply.map,press,resolveWait,activity,keypad]
    cases Key.ofCode? code with
    | none => rfl
    | some key => cases machine.activity <;> rfl
  | release code =>
    simp only [serve,Reply.map,release,keypad]
    cases machine.keypad.record code false <;> rfl
  | wait codes =>
    simp only [serve,Reply.map,waitForKey,Keypad.await,resolveWait,activity,keypad]
    cases machine.activity with
    | running => rfl
    | awaitingKey register => cases (Arrival.await id codes).key <;> rfl
  | cancelWait =>
    simp only [serve,Reply.map,cancelWait,activity]
    cases machine.activity <;> rfl
  | step | execute word | tick | reset entropy => exact timeless.elim

theorem serve_withTimers (timeless : request.Timeless) (machine : Machine) (change : Timers → Timers) :
    (machine.withTimers change).serve request =
      {machine.serve request with
        machine := (machine.serve request).machine.withTimers change} := by
  have kept := Aside.of_timeless timeless machine
  rw [withTimers,serve_retimed timeless,withTimers,kept.settings,kept.sinceTick,kept.timers]

theorem Alike.timeless (alike : first.Alike second) (timeless : request.Timeless) :
    Matching (first.serve request) (second.serve request) := by
  obtain ⟨settings,count,timers,seed,rfl⟩ := alike
  have kept := (Aside.of_timeless timeless first).settings
  rw [serve_retimed timeless]
  exact ⟨rfl,settings,count,timers,seed.trans (congrArg _ kept.symm),rfl⟩

theorem fresh_alike {settings other : Settings} (seeds : other.seed = settings.seed)
    (entropy : ChaCha.Key) : (fresh settings entropy).Alike (fresh other entropy) := by
  refine ⟨other,0,{},seeds,?_⟩
  simp only [fresh,retimed,seeds]
  rfl

/-- As long as no timer is read the machines stay alike, and only a tick tells them apart. -/
theorem Alike.serve (alike : first.Alike second)
    (unread : ∀ word, first.Executes request word → ¬OfForm "Fx07" word) :
    (request ≠ .tick → (second.serve request).answer = (first.serve request).answer) ∧
      (first.serve request).machine.Alike (second.serve request).machine := by
  have both (matching : Matching (first.serve request) (second.serve request)) :
      (request ≠ .tick → (second.serve request).answer = (first.serve request).answer) ∧
        (first.serve request).machine.Alike (second.serve request).machine :=
    ⟨fun _ => matching.answer,matching.alike⟩
  cases request with
  | step => exact both ((alike.step unread).map _)
  | execute word => exact both ((alike.execute unread).map _)
  | tick => exact ⟨fun other => absurd rfl other,alike.ages ⟨_,_,rfl⟩ ⟨_,_,rfl⟩⟩
  | reset entropy =>
    obtain ⟨settings,count,timers,seed,rfl⟩ := alike
    exact both ⟨rfl,fresh_alike seed entropy⟩
  | _ => exact both (alike.timeless (by trivial))

theorem Alike.after (alike : first.Alike second) {history : List Request}
    (unread : first.Avoids "Fx07" history) : (first.after history).Alike (second.after history) := by
  induction history generalizing first second with
  | nil => exact alike
  | cons request history ih =>
    obtain ⟨now,later⟩ := unread
    exact ih (alike.serve now).2 later

theorem Alike.same {part : Part} (alike : first.Alike second) (timeless : part ∉ Part.timing) :
    part.Same first second := by
  obtain ⟨settings,count,timers,seed,rfl⟩ := alike
  cases part with
  | settings | sinceTick | delay | sound => exact absurd (by simp [Part.timing]) timeless
  | _ => rfl

/-- Machines of one seed that keep time in different ways are the same in all parts but those of time,
and answer all requests but ticks in the same way, as long as the first one reads no timer. -/
theorem timing_unobserved (first second : Settings) (seeds : second.seed = first.seed)
    (entropy : ChaCha.Key) (history : List Request)
    (unread : (fresh first entropy).Avoids "Fx07" history) :
    (∀ past, past <+: history → ∀ part ∉ Part.timing,
      part.Same ((fresh first entropy).after past) ((fresh second entropy).after past)) ∧
    (∀ past request, past ++ [request] <+: history → request ≠ .tick →
      (((fresh second entropy).after past).serve request).answer =
        (((fresh first entropy).after past).serve request).answer) := by
  have start := fresh_alike seeds entropy
  constructor
  · rintro past ⟨rest,rfl⟩ part timeless
    exact (start.after unread.of_append).same timeless
  · rintro past request ⟨rest,rfl⟩ other
    rw [List.append_assoc] at unread
    exact ((start.after unread.of_append).serve unread.behind.1).1 other

/-- One of the machines leaves the delay timer to its host and the other one counts it down while it
waits for a key. -/
theorem timing_unobserved_waiting :
    let settings : Settings := {drive := .everyInstructions 1,ticksWhileWaiting := true,seed := some 7}
    let history : List Request := [.execute 0x6009,.execute 0xF015,.execute 0xF10A,.step,.press 0x7]
    let hosted := (fresh {seed := some 7} (Vector.replicate 8 0)).after history
    let driven := (fresh settings (Vector.replicate 8 0)).after history
    driven.registers.get 1 = hosted.registers.get 1 ∧
      driven.registers.timers.delay ≠ hosted.registers.timers.delay := by
  intro settings history hosted driven
  obtain ⟨same,_⟩ := timing_unobserved {seed := some 7} settings rfl (Vector.replicate 8 0) history
    (by decide +kernel)
  exact ⟨same history (List.prefix_refl _) (.general 1) (by decide),by decide +kernel⟩

end Machine

end Chip8
