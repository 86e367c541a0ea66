import Chip8.Proofs.Instruction.Words
import Chip8.Proofs.Machine.Requests
import Chip8.Proofs.Memory.Words

/-! The account of the timers. A step that counts takes the count of
instructions one further, and the timers tick when the count comes to the
period. Over a history this makes one tick of every so many counted steps. -/
namespace Chip8

theorem countDown_toNat (timer : UInt8) : (countDown timer).toNat = timer.toNat - 1 := by
  unfold countDown
  split
  · rename_i zero
    rw [zero]
    rfl
  · rename_i live
    have positive : 1 ≤ timer := by
      rw [UInt8.le_iff_toNat_le]
      have nonzero : timer.toNat ≠ 0 := fun zero => live (UInt8.toNat_inj.mp zero)
      exact Nat.one_le_iff_ne_zero.mpr nonzero
    exact UInt8.toNat_sub_of_le timer 1 positive

/-- An instruction more is a period of the count, if the timers tick, and what is left of it. -/
theorem TimerDrive.advance_balance {period : UInt32} {count : Nat}
    (admitted : (everyInstructions period).Admits count) :
    ((everyInstructions period).advance count).2.toNat * max period.toNat 1 +
      ((everyInstructions period).advance count).1 = count + 1 := by
  have below : count < max period.toNat 1 := admitted
  simp only [advance]
  split
  · simp only [Bool.toNat_true]
    omega
  · simp only [Bool.toNat_false]
    omega

theorem Registers.calculate_timers (registers : Registers) (calculation : Calculation)
    (x y : Register) : (registers.calculate calculation x y).timers = registers.timers := by
  unfold calculate
  dsimp only
  split <;> rfl

theorem Registers.fill_timers (registers : Registers) (last : Register) (value : Register → UInt8) :
    (registers.fill last value).timers = registers.timers := by
  simp only [fill]

namespace Instruction
variable {machine after : Machine} {instruction : Instruction}

theorem apply_timers (applied : instruction.apply machine = .ok after) :
    (∃ x, instruction = .setDelay x ∧ after.registers.timers =
        {machine.registers.timers with delay := machine.registers.get x}) ∨
      (∃ x, instruction = .setSound x ∧ after.registers.timers =
        {machine.registers.timers with sound := machine.registers.get x}) ∨
      ((∀ x, instruction ≠ .setDelay x) ∧ (∀ x, instruction ≠ .setSound x) ∧
        after.registers.timers = machine.registers.timers) := by
  cases instruction with
  | setDelay x =>
    cases applied
    exact .inl ⟨x,rfl,rfl⟩
  | setSound x =>
    cases applied
    exact .inr (.inl ⟨x,rfl,rfl⟩)
  | returnFromCall =>
    obtain ⟨address,stack,popped,rfl⟩ := apply_returnFromCall applied
    exact .inr (.inr ⟨nofun,nofun,rfl⟩)
  | call target =>
    obtain ⟨stack,pushed,rfl⟩ := apply_call applied
    exact .inr (.inr ⟨nofun,nofun,rfl⟩)
  | skipIf condition =>
    cases applied
    refine .inr (.inr ⟨nofun,nofun,?_⟩)
    split <;> rfl
  | calculate calculation x y =>
    cases applied
    exact .inr (.inr ⟨nofun,nofun,Registers.calculate_timers ..⟩)
  | loadRegisters last =>
    cases applied
    exact .inr (.inr ⟨nofun,nofun,Registers.fill_timers ..⟩)
  | _ =>
    cases applied
    exact .inr (.inr ⟨nofun,nofun,rfl⟩)

end Instruction

namespace Machine
variable {machine : Machine} {request : Request}

/-- The timers as the instruction of a request leaves them, before they tick. -/
inductive Loads (machine : Machine) (request : Request) : Timers → Prop where
  | delay (x : Register) (executes : machine.Executes request (UInt16.ofNat (0xF015 + 256 * x))) :
      Loads machine request {machine.registers.timers with delay := machine.registers.get x}
  | sound (x : Register) (executes : machine.Executes request (UInt16.ofNat (0xF018 + 256 * x))) :
      Loads machine request {machine.registers.timers with sound := machine.registers.get x}
  | none (delay : ∀ x : Register, ¬machine.Executes request (UInt16.ofNat (0xF015 + 256 * x)))
      (sound : ∀ x : Register, ¬machine.Executes request (UInt16.ofNat (0xF018 + 256 * x))) :
      Loads machine request machine.registers.timers

theorem Loads.of_idle (idle : machine.Idle request) :
    machine.Loads request machine.registers.timers :=
  .none (fun _ => idle _) fun _ => idle _

theorem Loads.of_applied {after : Machine} {word : UInt16} (executes : machine.Executes request word)
    (applied : (Instruction.decode word).apply (machine.behindWord request) = .ok after) :
    machine.Loads request after.registers.timers := by
  rcases Instruction.apply_timers applied with
    ⟨x,decoded,timers⟩ | ⟨x,decoded,timers⟩ | ⟨undelayed,unsounded,timers⟩
  · rw [timers,behindWord_timers,behindWord_get]
    exact .delay x (Instruction.decode_setDelay.mp decoded ▸ executes)
  · rw [timers,behindWord_timers,behindWord_get]
    exact .sound x (Instruction.decode_setSound.mp decoded ▸ executes)
  · rw [timers,behindWord_timers]
    refine .none (fun x other => ?_) fun x other => ?_
    · exact undelayed x (Instruction.decode_setDelay.mpr (executes.unique other))
    · exact unsounded x (Instruction.decode_setSound.mpr (executes.unique other))

/-- A step counts if it executes an instruction, and while the machine waits for a key if the
settings say so. No other request counts. -/
def counts (machine : Machine) : Request → Bool
  | .step => machine.step.answer.isOk &&
      (machine.activity = .running || machine.settings.ticksWhileWaiting)
  | _ => false

theorem counts_ok {status : Status} (answer : machine.step.answer = .ok status) :
    machine.counts .step =
      (machine.activity = .running || machine.settings.ticksWhileWaiting) := by
  simp only [counts,answer]
  exact Bool.true_and _

theorem counts_error {fault : Fault} (answer : machine.step.answer = .error fault) :
    machine.counts .step = false := by
  simp only [counts,answer]
  exact Bool.false_and _

theorem Executes.counts {word : UInt16} (executes : machine.Executes .step word) :
    machine.counts .step = true := by
  obtain ⟨status,accepted⟩ := executes.accepted
  change Answer.ofExcept .status machine.step.answer = _ at accepted
  cases answer : machine.step.answer with
  | ok same =>
    rw [counts_ok answer,executes.running]
    rfl
  | error fault =>
    rw [answer] at accepted
    cases accepted

def completes (machine : Machine) (request : Request) : Bool :=
  machine.counts request && (machine.settings.drive.advance machine.sinceTick).2

structure Clocked (machine : Machine) (request : Request) : Prop where
  sinceTick : (machine.serve request).machine.sinceTick =
    if machine.counts request then (machine.settings.drive.advance machine.sinceTick).1
    else machine.sinceTick
  timers : ∃ loaded, machine.Loads request loaded ∧
    (machine.serve request).machine.registers.timers =
      if machine.completes request ∨ request = .tick then loaded.tick.1 else loaded

theorem Clocked.of_uncounted (uncounted : machine.counts request = false)
    (unticked : request ≠ .tick)
    (sinceTick : (machine.serve request).machine.sinceTick = machine.sinceTick)
    (loads : machine.Loads request (machine.serve request).machine.registers.timers) :
    machine.Clocked request := by
  refine ⟨?_,_,loads,?_⟩
  · rw [uncounted,sinceTick]
    rfl
  · simp [completes,uncounted,unticked]

theorem Clocked.of_counted {worked : Machine} (counted : machine.counts .step = true)
    (settings : worked.settings = machine.settings) (sinceTick : worked.sinceTick = machine.sinceTick)
    (left : (machine.serve .step).machine = worked.countInstruction.machine)
    (loads : machine.Loads .step worked.registers.timers) : machine.Clocked .step := by
  rw [countInstruction_machine,settings,sinceTick] at left
  refine ⟨?_,_,loads,?_⟩
  · rw [left,counted]
    rfl
  · rw [left,completes,counted,Bool.true_and]
    cases (machine.settings.drive.advance machine.sinceTick).2 <;> rfl

theorem Clocked.of_aside (uncounted : machine.counts request = false) (unticked : request ≠ .tick)
    (idle : machine.Idle request) (kept : Aside machine (machine.serve request).machine) :
    machine.Clocked request := by
  refine .of_uncounted uncounted unticked kept.sinceTick ?_
  rw [kept.timers]
  exact .of_idle idle

theorem Clocked.of_error {fault : Fault} (answer : machine.step.answer = .error fault)
    (left : machine.step.machine = machine) : machine.Clocked .step := by
  have idle : machine.Idle .step := .of_fault (congrArg (Answer.ofExcept .status) answer)
  exact .of_aside (counts_error answer) nofun idle (.of_eq left)

theorem step_clocked (machine : Machine) : machine.Clocked .step := by
  cases machine.step_cases with
  | parked register waiting answer left =>
    have idle : machine.Idle .step := .of_parked waiting .step
    have counted : machine.counts .step = machine.settings.ticksWhileWaiting := by
      rw [counts_ok answer,waiting]
      rfl
    cases policy : machine.settings.ticksWhileWaiting with
    | true =>
      rw [policy] at counted left
      exact .of_counted counted rfl rfl left (.of_idle idle)
    | false =>
      rw [policy] at counted left
      exact .of_aside counted nofun idle (.of_eq left)
  | unreadable fault running missing answer left => exact .of_error answer left
  | refused word fault running found rejected answer left => exact .of_error answer left
  | executed word after running found applied answer left =>
    have accepted := congrArg (Answer.ofExcept .status) answer
    have executes : machine.Executes .step word := ⟨running,.inr ⟨rfl,found⟩,_,accepted⟩
    have frame := Instruction.apply_frame applied
    exact .of_counted executes.counts frame.settings frame.sinceTick left
      (.of_applied executes applied)

theorem other_clocked (unstepped : request ≠ .step) (unticked : request ≠ .tick)
    (lasting : ∀ entropy, request ≠ .reset entropy) : machine.Clocked request := by
  have uncounted : machine.counts request = false := by
    cases request with
    | step => exact absurd rfl unstepped
    | _ => rfl
  cases machine.serve_cases request with
  | executed word after executes applied left =>
    have offered : request = .execute word :=
      executes.taken.resolve_right fun taken => unstepped taken.1
    subst offered
    refine .of_uncounted uncounted unticked ?_ ?_
    · rw [left]
      exact (Instruction.apply_frame applied).sinceTick
    · rw [left]
      exact .of_applied executes applied
  | parked asked register waiting left => exact absurd asked unstepped
  | ticked asked => exact absurd asked unticked
  | restarted entropy asked => exact absurd asked (lasting entropy)
  | aside idle kept => exact .of_aside uncounted unticked idle kept

theorem serve_clocked (machine : Machine) (lasting : ∀ entropy, request ≠ .reset entropy) :
    machine.Clocked request := by
  cases request with
  | step => exact step_clocked machine
  | tick => exact ⟨rfl,_,.of_idle (.of_other nofun nofun),rfl⟩
  | _ => exact other_clocked nofun nofun lasting

structure Tally where
  counted : Nat := 0
  ticks : Nat := 0
deriving DecidableEq

def noted (machine : Machine) (tally : Tally) : Request → Tally
  | .reset _ => {}
  | request => ⟨tally.counted + (machine.counts request).toNat,
      tally.ticks + (machine.completes request).toNat⟩

def tally (machine : Machine) (start : Tally) : List Request → Tally
  | [] => start
  | request :: history =>
    (machine.serve request).machine.tally (machine.noted start request) history

theorem noted_lasting (machine : Machine) (tally : Tally)
    (lasting : ∀ entropy, request ≠ .reset entropy) :
    machine.noted tally request = ⟨tally.counted + (machine.counts request).toNat,
      tally.ticks + (machine.completes request).toNat⟩ := by
  cases request with
  | reset entropy => exact absurd rfl (lasting entropy)
  | _ => rfl

section Period
variable {period : UInt32} (driven : machine.settings.drive = .everyInstructions period)
include driven

theorem Clocked.balance (clocked : machine.Clocked request) (counted : machine.Counted) :
    (machine.completes request).toNat * max period.toNat 1 +
        (machine.serve request).machine.sinceTick =
      machine.sinceTick + (machine.counts request).toNat := by
  unfold Counted at counted
  rw [clocked.sinceTick]
  unfold completes
  rw [driven] at counted ⊢
  cases machine.counts request with
  | false => simp
  | true =>
    rw [Bool.true_and,if_pos rfl]
    exact TimerDrive.advance_balance counted

/-- The ticks, a period each, and the count since the last of them make up all that has been counted,
and the `offset` of the count that the history starts with. A reset forgets the offset. -/
theorem tally_balance (offset : Nat) (start : Tally) (history : List Request)
    (counted : machine.Counted) (lasting : ∀ entropy, .reset entropy ∈ history → offset = 0)
    (balanced : start.ticks * max period.toNat 1 + machine.sinceTick = offset + start.counted) :
    (machine.tally start history).ticks * max period.toNat 1 + (machine.after history).sinceTick =
      offset + (machine.tally start history).counted := by
  induction history generalizing machine start with
  | nil => exact balanced
  | cons request history ih =>
    have settings := (serve_counting machine request).settings
    refine ih (settings ▸ driven) _ (counted.serve request)
      (fun entropy member => lasting entropy (List.mem_cons_of_mem _ member)) ?_
    by_cases restarts : ∃ entropy, request = .reset entropy
    · obtain ⟨entropy,rfl⟩ := restarts
      have zero : offset = 0 := lasting entropy List.mem_cons_self
      rw [zero]
      exact Nat.zero_mul _
    · have other (entropy : ChaCha.Key) : request ≠ .reset entropy :=
        fun same => restarts ⟨entropy,same⟩
      have balance := (serve_clocked machine other).balance driven counted
      rw [noted_lasting machine start other]
      dsimp only
      rw [Nat.add_mul]
      omega

theorem tally_division {total ticks : Nat} (counted : machine.Counted)
    (balanced : ticks * max period.toNat 1 + machine.sinceTick = total) :
    ticks = total / max period.toNat 1 ∧ machine.sinceTick = total % max period.toNat 1 := by
  unfold Counted at counted
  rw [driven] at counted
  have positive : 0 < max period.toNat 1 := Nat.lt_of_lt_of_le Nat.zero_lt_one (Nat.le_max_right _ 1)
  have whole : machine.sinceTick + max period.toNat 1 * ticks = total := by
    rw [Nat.add_comm,Nat.mul_comm]
    exact balanced
  obtain ⟨quotient,rest⟩ := (Nat.div_mod_unique positive).mpr ⟨whole,counted⟩
  exact ⟨quotient.symm,rest.symm⟩

end Period

section Host
variable (hosted : machine.settings.drive = .host)
include hosted

theorem completes_host (request : Request) : machine.completes request = false := by
  unfold completes
  rw [hosted]
  exact Bool.and_false _

theorem tally_host {start : Tally} (history : List Request) (unticked : start.ticks = 0) :
    (machine.tally start history).ticks = 0 := by
  induction history generalizing machine start with
  | nil => exact unticked
  | cons request history ih =>
    have settings := (serve_counting machine request).settings
    refine ih (settings ▸ hosted) ?_
    cases request with
    | reset entropy => rfl
    | _ =>
      simp only [noted,unticked,completes_host hosted]
      rfl

end Host

/-- A request that lets the delay timer be, but for a tick that its count may bring. -/
structure Spares (machine : Machine) (request : Request) : Prop where
  unticked : request ≠ .tick
  lasting : ∀ entropy, request ≠ .reset entropy
  unloaded : ∀ x : Register, ¬machine.Executes request (UInt16.ofNat (0xF015 + 256 * x))

theorem Spares.of_word {word : UInt16}
    (found : machine.memory.readWord machine.registers.counter.toNat = .ok word)
    (other : ∀ x : Register, word ≠ UInt16.ofNat (0xF015 + 256 * x)) : machine.Spares .step where
  unticked := nofun
  lasting := nofun
  unloaded x executes := by
    rcases executes.taken with offered | ⟨_,again⟩
    · cases offered
    · exact other x (Except.ok.inj (found.symm.trans again))

def Quiet (machine : Machine) : List Request → Prop
  | [] => True
  | request :: history => machine.Spares request ∧ (machine.serve request).machine.Quiet history

theorem Quiet.lasting {history : List Request} (quiet : machine.Quiet history)
    (entropy : ChaCha.Key) : .reset entropy ∉ history := by
  induction history generalizing machine with
  | nil => exact List.not_mem_nil
  | cons request history ih =>
    obtain ⟨spares,quiet⟩ := quiet
    intro member
    rcases List.mem_cons.mp member with same | member
    · exact spares.lasting entropy same.symm
    · exact ih quiet member

theorem Loads.delay_kept {loaded : Timers} (loads : machine.Loads request loaded)
    (unloaded : ∀ x : Register, ¬machine.Executes request (UInt16.ofNat (0xF015 + 256 * x))) :
    loaded.delay = machine.registers.timers.delay := by
  cases loads with
  | delay x executes => exact absurd executes (unloaded x)
  | sound x executes => rfl
  | none delay sound => rfl

theorem Loads.delay_loaded {loaded : Timers} {x : Register} (loads : machine.Loads request loaded)
    (executes : machine.Executes request (UInt16.ofNat (0xF015 + 256 * x))) :
    loaded.delay = machine.registers.get x := by
  cases loads with
  | delay y other =>
    have same : Instruction.decode (UInt16.ofNat (0xF015 + 256 * x)) = .setDelay y :=
      Instruction.decode_setDelay.mpr (executes.unique other)
    rw [Instruction.decode_setDelay.mpr rfl] at same
    cases same
    rfl
  | sound y other =>
    have same : Instruction.decode (UInt16.ofNat (0xF015 + 256 * x)) = .setSound y :=
      Instruction.decode_setSound.mpr (executes.unique other)
    rw [Instruction.decode_setDelay.mpr rfl] at same
    cases same
  | none delay sound => exact absurd executes (delay x)

theorem Clocked.delay (clocked : machine.Clocked request) (unticked : request ≠ .tick) :
    ∃ loaded, machine.Loads request loaded ∧
      (machine.serve request).machine.registers.timers.delay.toNat =
        loaded.delay.toNat - (machine.completes request).toNat := by
  obtain ⟨loaded,loads,timers⟩ := clocked.timers
  refine ⟨loaded,loads,?_⟩
  rw [timers]
  cases machine.completes request with
  | true => exact countDown_toNat loaded.delay
  | false => simp [unticked]

/-- A delay timer that only the count reaches goes down by one with each tick. -/
theorem Quiet.delay {start : Tally} {value : Nat} {history : List Request}
    (quiet : machine.Quiet history)
    (since : machine.registers.timers.delay.toNat = value - start.ticks) :
    (machine.after history).registers.timers.delay.toNat =
      value - (machine.tally start history).ticks := by
  induction history generalizing machine start with
  | nil => exact since
  | cons request history ih =>
    obtain ⟨spares,quiet⟩ := quiet
    refine ih quiet ?_
    obtain ⟨loaded,loads,delay⟩ := (serve_clocked machine spares.lasting).delay spares.unticked
    rw [delay,loads.delay_kept spares.unloaded,since,noted_lasting machine start spares.lasting]
    exact Nat.sub_sub ..

/-- The delay timer behind a step that loads it, as long as nothing but the count reaches it. -/
theorem delay_after {period : UInt32} (driven : machine.settings.drive = .everyInstructions period)
    (counted : machine.Counted) {x : Register} {history : List Request}
    (executes : machine.Executes .step (UInt16.ofNat (0xF015 + 256 * x)))
    (quiet : machine.step.machine.Quiet history) :
    (machine.step.machine.after history).registers.timers.delay.toNat =
      (machine.registers.get x).toNat -
        (machine.sinceTick + 1 + (machine.step.machine.tally {} history).counted) /
          max period.toNat 1 := by
  have settings := (serve_counting machine .step).settings
  have later : machine.step.machine.Counted := counted.serve .step
  have drives : machine.step.machine.settings.drive = .everyInstructions period := settings ▸ driven
  obtain ⟨loaded,loads,delay⟩ := (step_clocked machine).delay nofun
  rw [loads.delay_loaded executes] at delay
  have first := (step_clocked machine).balance driven counted
  rw [executes.counts,Bool.toNat_true] at first
  have rest := tally_balance drives machine.step.machine.sinceTick {} history later
    (fun entropy member => absurd member (quiet.lasting entropy)) (by simp)
  -- The tick of the step that loads and those behind it are all that the count makes.
  have total : ((machine.completes .step).toNat + (machine.step.machine.tally {} history).ticks) *
      max period.toNat 1 + (machine.step.machine.after history).sinceTick =
        machine.sinceTick + 1 + (machine.step.machine.tally {} history).counted := by
    rw [Nat.add_mul]
    change _ + machine.step.machine.sinceTick = _ at first
    omega
  have settled := after_settings machine.step.machine history
  obtain ⟨ticks,_⟩ := tally_division (settled ▸ drives) (later.after history) total
  rw [← ticks,← Nat.sub_sub]
  exact quiet.delay (delay.trans (Nat.sub_zero _).symm)

/-- The account of a machine behind any history. Only a counted step moves the count and makes the
timers tick of their own accord, once in a period. -/
theorem timers_accounted (settings : Settings) (entropy : ChaCha.Key) (history : List Request) :
    let machine := (fresh settings entropy).after history
    let tally := (fresh settings entropy).tally {} history
    (∀ request, (∀ entropy, request ≠ .reset entropy) → machine.Clocked request) ∧
    (∀ period, settings.drive = .everyInstructions period →
      tally.ticks = tally.counted / max period.toNat 1 ∧
      machine.sinceTick = tally.counted % max period.toNat 1 ∧
      ∀ (x : Register) recent, machine.Executes .step (UInt16.ofNat (0xF015 + 256 * x)) →
        machine.step.machine.Quiet recent →
          (machine.step.machine.after recent).registers.timers.delay.toNat =
            (machine.registers.get x).toNat -
              (machine.sinceTick + 1 + (machine.step.machine.tally {} recent).counted) /
                max period.toNat 1) ∧
    (settings.drive = .host → tally.ticks = 0 ∧ ∀ request, machine.completes request = false) := by
  intro machine tally
  have settled : machine.settings = settings := after_settings (fresh settings entropy) history
  have counted : machine.Counted := (fresh_counted settings entropy).after history
  refine ⟨fun request => serve_clocked machine,?_,?_⟩
  · intro period driven
    have drives : machine.settings.drive = .everyInstructions period := settled ▸ driven
    have balance := tally_balance driven 0 {} history (fresh_counted settings entropy)
      (fun _ _ => rfl) (Nat.zero_mul _)
    rw [Nat.zero_add] at balance
    obtain ⟨ticks,sinceTick⟩ := tally_division drives counted balance
    exact ⟨ticks,sinceTick,fun x recent => delay_after drives counted⟩
  · intro hosted
    exact ⟨tally_host hosted history rfl,completes_host (settled ▸ hosted)⟩

/-- The step that loads the delay timer makes it tick already, and two jumps behind it once more. -/
theorem timers_accounted_loop :
    let machine := (fresh {drive := .everyInstructions 2} (Vector.replicate 8 0)).after
      [.load [0x60,0x0A,0xF0,0x15,0x12,0x04],.step]
    machine.sinceTick = 1 % 2 ∧
      (machine.step.machine.after [.step,.step]).registers.timers.delay.toNat =
        10 - (1 + 1 + 2) / 2 := by
  have accounted := timers_accounted {drive := .everyInstructions 2} (Vector.replicate 8 0)
    [.load [0x60,0x0A,0xF0,0x15,0x12,0x04],.step]
  dsimp only at accounted ⊢
  generalize made : after _ _ = machine at accounted ⊢
  obtain ⟨_,driven,_⟩ := accounted
  obtain ⟨_,_,delay⟩ := driven 2 rfl
  have loads : machine.Executes .step (UInt16.ofNat (0xF015 + 256 * firstRegister)) := by
    subst made
    exact ⟨by decide +kernel,.inr ⟨rfl,Memory.readWord_ok_iff.mpr (by decide +kernel)⟩,
      .running,by decide +kernel⟩
  have jump : ∀ x : Register, (0x1204 : UInt16) ≠ UInt16.ofNat (0xF015 + 256 * x) := by decide
  have quiet : machine.step.machine.Quiet [.step,.step] := by
    subst made
    exact ⟨.of_word (Memory.readWord_ok_iff.mpr (by decide +kernel)) jump,
      .of_word (Memory.readWord_ok_iff.mpr (by decide +kernel)) jump,trivial⟩
  have counted : (machine.step.machine.tally {} [.step,.step]).counted = 2 := by
    subst made
    decide +kernel
  have once : machine.sinceTick = 1 := by
    subst made
    decide +kernel
  have value : (machine.registers.get firstRegister).toNat = 10 := by
    subst made
    decide +kernel
  refine ⟨once,?_⟩
  rw [delay firstRegister [.step,.step] loads quiet,value,counted,once]
  rfl

end Machine

end Chip8
