import Chip8.Proofs.CommandLine.Courses
import Chip8.Proofs.Machine.Histories
import Chip8.Proofs.Machine.Parts
import Chip8.Proofs.Machine.Timing

/-! The requests that a conversation makes of its machine. Each cycle makes one
step, and lets go the key that it presses, so that no key is down when the next
one starts, and every eighth of them ticks the timers. -/
namespace Chip8

namespace Machine
variable {machine : Machine}

theorem tally_append (machine : Machine) (start : Tally) (past rest : List Request) :
    machine.tally start (past ++ rest) = (machine.after past).tally (machine.tally start past) rest := by
  induction past generalizing machine start with
  | nil => rfl
  | cons request past ih => exact ih _ _

theorem Executes.step_runs {x : Register}
    (executes : machine.Executes .step (UInt16.ofNat (0xF015 + 256 * x))) :
    machine.step.answer = .ok .running := by
  obtain ⟨after,applied,_⟩ := executes.applied
  obtain ⟨_,found⟩ := executes.taken.resolve_left nofun
  have answer := (step_executed executes.running found applied).1
  rw [Instruction.decode_setDelay.mpr rfl] at applied
  cases applied
  exact answer.trans (congrArg Except.ok (status_running executes.running))

theorem Executes.skip {word : UInt16} {condition : Condition} (executes : machine.Executes .step word)
    (decoded : Instruction.decode word = .skipIf condition) :
    machine.step.machine.registers.counter =
      if condition.holds machine.registers machine.keypad then machine.registers.counter + 2 + 2
      else machine.registers.counter + 2 := by
  obtain ⟨after,applied,left⟩ := executes.applied
  have moved : machine.step.machine.registers.counter = after.registers.counter :=
    (congrArg (·.registers.counter) left).trans (concluded_counter after .step)
  rw [decoded] at applied
  cases applied
  have same : condition.holds machine.registers.skip machine.keypad =
      condition.holds machine.registers machine.keypad := by cases condition <;> rfl
  rw [moved]
  change (if condition.holds machine.registers.skip machine.keypad then _ else _ : Machine).registers.counter = _
  rw [same]
  split <;> rfl

/-- A word that asks for a key is executed with all keys up. -/
def Unheld (machine : Machine) (request : Request) : Prop :=
  ∀ word, machine.Executes request word →
    (OfForm "Ex9E" word →
      (machine.serve request).machine.registers.counter = machine.registers.counter + 2) ∧
    (OfForm "ExA1" word →
      (machine.serve request).machine.registers.counter = machine.registers.counter + 2 + 2)

theorem Unheld.of_idle {request : Request} (idle : machine.Idle request) : machine.Unheld request :=
  fun word executes => absurd executes (idle word)

theorem Unheld.step (released : machine.keypad = .released) : machine.Unheld .step := by
  intro word executes
  constructor
  · intro fits
    have skipped := executes.skip (Instruction.decode_keyDown fits)
    rw [released,Condition.holds,Keypad.isDown_released] at skipped
    exact skipped
  · intro fits
    have skipped := executes.skip (Instruction.decode_keyUp fits)
    rw [released,Condition.holds,Keypad.isDown_released] at skipped
    exact skipped

end Machine

namespace CommandLine
variable {machine : Machine} {cycles : Nat} {lines : List InputLine}

structure Resting (machine : Machine) : Prop where
  settings : machine.settings = CommandLine.settings
  keypad : machine.keypad = .released

theorem Resting.step (resting : Resting machine) : Resting machine.step.machine where
  settings := (Machine.serve_counting machine .step).settings.trans resting.settings
  keypad := machine.step_keypad.trans resting.keypad

theorem Resting.typed (resting : Resting machine) (line : String) :
    Resting (machine.after (typing machine line)) := by
  cases pressed : pressed? machine line with
  | none =>
    rw [after_unpressed pressed]
    exact resting
  | some key =>
    rw [after_pressed pressed]
    refine ⟨?_,?_⟩
    · exact (Machine.Aside.receive machine key).settings.trans resting.settings
    · change (machine.receive key).keypad.set key false = _
      rw [Machine.receive_keypad,resting.keypad,Keypad.set_released]

theorem Resting.left (resting : Resting machine) :
    Resting (course cycles machine lines).machine := by
  fun_induction course cycles machine lines with
  | case1 => exact resting
  | case2 | case4 | case5 => exact resting.step
  | case3 cycles machine lines answer ih => exact ih resting.step
  | case6 cycles machine answer line lines ih => exact ih (resting.step.typed line)

theorem typing_throughout {holds : Machine → Request → Prop} {worked : Machine} {line : String}
    (waits : ∀ machine codes, holds machine (.wait codes))
    (releases : ∀ machine (key : Key), holds machine (.release key.code)) :
    worked.Throughout holds (typing machine line) := by
  unfold typing
  dsimp only
  cases (machine.waitForKey Key.ofChar? line.toList).answer.1 with
  | none => exact ⟨waits worked _,trivial⟩
  | some key => exact ⟨waits worked _,releases _ key,trivial⟩

/-- What is true of each step of a machine at rest, of waits and of releases of keys is true of all
that a conversation asks of its machine. -/
theorem Resting.throughout {holds : Machine → Request → Prop} (resting : Resting machine)
    (step : ∀ machine, Resting machine → holds machine .step)
    (waits : ∀ machine codes, holds machine (.wait codes))
    (releases : ∀ machine (key : Key), holds machine (.release key.code)) :
    machine.Throughout holds (course cycles machine lines).requests := by
  fun_induction course cycles machine lines with
  | case1 => trivial
  | case2 | case4 | case5 => exact ⟨step _ resting,trivial⟩
  | case3 cycles machine lines answer ih => exact ⟨step machine resting,ih resting.step⟩
  | case6 cycles machine answer line lines ih =>
    exact ⟨step machine resting,
      (typing_throughout waits releases).append (ih (resting.step.typed line))⟩

theorem tally_typing (start : Machine.Tally) (worked : Machine) (line : String) :
    worked.tally start (typing machine line) = start := by
  unfold typing
  dsimp only
  cases (machine.waitForKey Key.ofChar? line.toList).answer.1 <;> rfl

theorem Resting.noted (resting : Resting machine) {status : Status}
    (answer : machine.step.answer = .ok status) (start : Machine.Tally) :
    (machine.noted start .step).counted = start.counted + 1 := by
  have counts : machine.counts .step = true := by
    rw [Machine.counts_ok answer,resting.settings]
    exact Bool.or_true _
  rw [Machine.noted_lasting machine start (by simp),counts]
  rfl

/-- Every cycle of a conversation that goes on behind it is counted. -/
theorem Resting.counted (resting : Resting machine)
    (used : (course cycles machine lines).ending = .cyclesUsed) (start : Machine.Tally) :
    (machine.tally start (course cycles machine lines).requests).counted =
      start.counted + cycles := by
  fun_induction course cycles machine lines generalizing start with
  | case1 => rfl
  | case2 | case4 | case5 => cases used
  | case3 cycles machine lines answer ih =>
    refine (ih resting.step used _).trans ?_
    rw [resting.noted answer]
    omega
  | case6 cycles machine answer line lines ih =>
    have split := machine.step.machine.tally_append (machine.noted start .step)
      (typing machine.step.machine line)
    refine (congrArg Machine.Tally.counted (split _)).trans ?_
    rw [tally_typing,ih (resting.step.typed line) used,resting.noted answer]
    omega

theorem counted_of_zero (zero : machine.sinceTick = 0) : machine.Counted := by
  unfold Machine.Counted
  rw [zero]
  exact TimerDrive.admits_zero _

theorem counted_left (counted : machine.Counted) : (course cycles machine lines).machine.Counted := by
  rw [course_machine]
  exact counted.after _

theorem Resting.driven (resting : Resting machine) :
    machine.settings.drive = .everyInstructions Settings.usualPeriod :=
  congrArg Settings.drive resting.settings

/-- Every eighth cycle of a conversation that goes on behind it ticks the timers. -/
theorem Resting.ticked (resting : Resting machine) (zero : machine.sinceTick = 0)
    (used : (course cycles machine lines).ending = .cyclesUsed) :
    (course cycles machine lines).machine.sinceTick = cycles % 8 ∧
      (machine.tally {} (course cycles machine lines).requests).ticks = cycles / 8 := by
  have counted := counted_of_zero zero
  have balance := Machine.tally_balance resting.driven 0 {}
    (course cycles machine lines).requests counted (fun _ _ => rfl) (by rw [zero]; rfl)
  rw [resting.counted used,← course_machine] at balance
  have total : (machine.tally {} (course cycles machine lines).requests).ticks *
      max Settings.usualPeriod.toNat 1 + (course cycles machine lines).machine.sinceTick =
        cycles := by
    simpa using balance
  exact (Machine.tally_division resting.left.driven (counted_left counted) total).symm

/-- The delay timer is what a cycle has loaded into it less the ticks of this cycle and those behind. -/
theorem Resting.delay (resting : Resting machine) (counted : machine.Counted) {x : Register}
    (executes : machine.Executes .step (UInt16.ofNat (0xF015 + 256 * x)))
    (used : (course (cycles + 1) machine lines).ending = .cyclesUsed)
    (quiet : machine.step.machine.Quiet (course cycles machine.step.machine lines).requests) :
    (course (cycles + 1) machine lines).machine.registers.timers.delay.toNat =
      (machine.registers.get x).toNat - (machine.sinceTick + 1 + cycles) / 8 := by
  rw [course_ran executes.step_runs] at used ⊢
  change (course cycles machine.step.machine lines).machine.registers.timers.delay.toNat = _
  rw [course_machine,Machine.delay_after resting.driven counted executes quiet,
    resting.step.counted used,Nat.zero_add]
  rfl

theorem fresh_resting (entropy : ChaCha.Key) (program : List UInt8) :
    Resting ((Machine.fresh settings entropy).load program).machine := by
  unfold Machine.load
  split <;> exact ⟨rfl,rfl⟩

theorem loaded_sinceTick (entropy : ChaCha.Key) (program : List UInt8) :
    ((Machine.fresh settings entropy).load program).machine.sinceTick = 0 := by
  unfold Machine.load
  split <;> rfl

/-- Whatever is typed, no key is down when a cycle starts, so that no program ever finds one down, and
the key that a line has pressed is let go again. Each cycle counts once, and nothing but every eighth
of them ticks the timers, so that the delay timer is what was loaded into it less those ticks. -/
theorem keys_let_go (files : String → Except FileError FileContent) (entropy : ChaCha.Key)
    (program : List UInt8) (transcript : Transcript) (count : Nat) :
    let start := ((Machine.fresh settings entropy).load program).machine
    let history := (course count start (transcript.input.map .ofBytes)).requests
    let talked := (converse (Transcript.terminal files) count start).run transcript
    talked.1.1 = start.after history ∧
    (∀ fault, talked.1.2 ≠ .keyRefused fault) ∧
    start.Throughout (fun machine request => machine.Unheld request ∧
      (∀ code, request = .release code → (machine.serve request).answer = .done) ∧
      request ≠ .tick ∧ machine.Clocked request) history ∧
    ∀ machine rest, talked = ((machine,.cyclesUsed),rest) →
      (∀ more, (converse (Transcript.terminal files) (count + more) start).run transcript =
        (converse (Transcript.terminal files) more machine).run rest) ∧
      (∀ key : Key, machine.keypad.isDown key.code = false) ∧
      machine.sinceTick = count % 8 ∧
      (start.tally {} history).ticks = count / 8 ∧
      ∀ (x : Register) more later left, machine.Executes .step (UInt16.ofNat (0xF015 + 256 * x)) →
        (converse (Transcript.terminal files) (more + 1) machine).run rest =
          ((later,.cyclesUsed),left) →
        machine.step.machine.Quiet
          (course more machine.step.machine (rest.input.map .ofBytes)).requests →
        later.registers.timers.delay.toNat =
          (machine.registers.get x).toNat - (count % 8 + 1 + more) / 8 := by
  intro start history talked
  have resting : Resting start := fresh_resting entropy program
  have told : talked = _ := converse_course count start transcript
  refine ⟨?_,fun fault => ?_,?_,?_⟩
  · rw [told]
    exact course_machine _ _ _
  · rw [told]
    exact course_unrefused _ _ _ fault
  · refine resting.throughout (fun machine rests => ?_) (fun machine codes => ?_)
      fun machine key => ?_
    · exact ⟨.step rests.keypad,nofun,nofun,Machine.step_clocked machine⟩
    · exact ⟨.of_idle (.of_other nofun nofun),nofun,nofun,Machine.serve_clocked machine (by simp)⟩
    · refine ⟨.of_idle (.of_other nofun nofun),?_,nofun,Machine.serve_clocked machine (by simp)⟩
      intro code same
      cases same
      exact congrArg (fun reply => Answer.ofExcept (fun _ => .done) reply.answer) (release_code machine key)
  · intro machine rest reached
    have reached := told.symm.trans reached
    obtain rfl : _ = machine := congrArg (·.1.1) reached
    obtain rfl : _ = rest := congrArg Prod.snd reached
    have used : (course count start (transcript.input.map .ofBytes)).ending = .cyclesUsed :=
      congrArg (·.1.2) reached
    have zero : start.sinceTick = 0 := loaded_sinceTick entropy program
    obtain ⟨sinceTick,ticks⟩ := resting.ticked zero used
    refine ⟨converse_used used,fun key => ?_,sinceTick,ticks,?_⟩
    · rw [resting.left.keypad]
      exact Keypad.isDown_released key.code
    · intro x more later left executes goes quiet
      rw [converse_course] at goes
      obtain rfl : _ = later := congrArg (·.1.1) goes
      rw [← sinceTick]
      exact resting.left.delay (counted_left (counted_of_zero zero)) executes (congrArg (·.1.2) goes) quiet

/-- A program that waits for a key and counts on from it. Its eighth cycle loads the delay timer, which
ticks at once. -/
theorem keys_let_go_loaded :
    let start := ((Machine.fresh settings (Vector.replicate 8 0)).load
      [0xF0,0x0A,0x70,0x01,0x70,0x01,0x70,0x01,0x70,0x01,0x70,0x01,0x70,0x01,0xF0,0x15]).machine
    let input : Transcript := {input := [[113,10]]}
    let terminal := Transcript.terminal fun _ => .error .missing
    let talked := (converse terminal 7 start).run input
    let loaded := (converse terminal 1 talked.1.1).run talked.2
    talked.1.2 = .cyclesUsed ∧ talked.1.1.keypad.isDown 4 = false ∧ talked.1.1.sinceTick = 7 ∧
      (start.tally {} (course 7 start (input.input.map .ofBytes)).requests).ticks = 0 ∧
      loaded.1.1.registers.timers.delay.toNat = 9 := by
  intro start input terminal talked loaded
  have computed : talked.1.2 = .cyclesUsed ∧ (talked.1.1.registers.get 0).toNat = 10 ∧
      talked.1.1.executed? .step = some (UInt16.ofNat (0xF015 + 256 * firstRegister)) ∧
      loaded.1.2 = .cyclesUsed := by decide +kernel
  obtain ⟨used,value,loads,more⟩ := computed
  have general := keys_let_go (fun _ => .error .missing) (Vector.replicate 8 0)
    [0xF0,0x0A,0x70,0x01,0x70,0x01,0x70,0x01,0x70,0x01,0x70,0x01,0x70,0x01,0xF0,0x15] input 7
  change _ ∧ _ ∧ _ ∧ ∀ machine rest, talked = ((machine,.cyclesUsed),rest) → _ at general
  clear_value talked
  obtain ⟨_,_,_,between⟩ := general
  obtain ⟨_,released,sinceTick,ticks,delay⟩ :=
    between talked.1.1 talked.2 (Prod.ext (Prod.ext rfl used) rfl)
  refine ⟨used,released 4,sinceTick,ticks,?_⟩
  have left := delay firstRegister 0 loaded.1.1 loaded.2 (Machine.executed?_eq_some.mp loads)
    (Prod.ext (Prod.ext rfl more) rfl) trivial
  rw [left]
  change (talked.1.1.registers.get 0).toNat - 1 = 9
  rw [value]

end CommandLine

end Chip8
