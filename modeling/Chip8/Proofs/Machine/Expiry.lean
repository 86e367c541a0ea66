import Chip8.Proofs.Machine.Logs
import Chip8.Proofs.Machine.Sounding

/-! How a sound ends. Between two settings of the sound timer the ticks take it down,
whoever makes them, and the one that takes it from one to zero is the only one that
tells of it. -/
namespace Chip8

theorem Arrival.unexpired {ε : Type} (map : ε → Option UInt8) (events : List ε) :
    .soundExpired ∉ (await map events).log := by
  induction events with
  | nil => exact List.not_mem_nil
  | cons event events ih =>
    unfold await
    split
    · simpa using ih
    · split
      · exact List.not_mem_nil
      · simpa using ih

theorem unexpired_remarksOn (word : UInt16) : .soundExpired ∉ remarksOn word := by
  unfold remarksOn
  split
  · simp
  · split <;> simp

namespace Machine
variable {machine : Machine} {request : Request} {history : List Request}

theorem unexpired_resolveWait (machine : Machine) (key : Key) :
    .soundExpired ∉ (machine.resolveWait key).log := by
  unfold resolveWait
  split <;> simp

theorem unexpired_announced (machine : Machine) : .soundExpired ∉ machine.announced := by
  unfold announced
  split
  · simp [unexpired_remarksOn]
  · exact List.not_mem_nil

/-- Only a cycle and a tick of the host tell of an expiry. -/
theorem unexpired_serve (unstepped : request ≠ .step) (unticked : request ≠ .tick) :
    .soundExpired ∉ (machine.serve request).log := by
  cases request with
  | step => exact absurd rfl unstepped
  | tick => exact absurd rfl unticked
  | load program =>
    simp only [serve,Reply.map,load]
    split <;> simp
  | fetch =>
    simp only [serve,Reply.map,fetch]
    split <;> simp
  | execute word =>
    cases activity : machine.activity with
    | running =>
      simp only [serve,Reply.map,execute_log activity]
      simp [unexpired_remarksOn]
    | awaitingKey register => simp [serve,Reply.map,execute,activity]
  | press code =>
    simp only [serve,Reply.map,press]
    split
    · exact unexpired_resolveWait _ _
    · exact List.not_mem_nil
  | release code =>
    simp only [serve,Reply.map,release]
    split <;> simp
  | wait codes =>
    simp only [serve,Reply.map,waitForKey]
    split
    · exact List.not_mem_nil
    · split
      · exact Arrival.unexpired id codes
      · simp [Keypad.await,Arrival.unexpired id codes,unexpired_resolveWait]
  | cancelWait =>
    simp only [serve,Reply.map,cancelWait]
    split <;> simp
  | reset entropy => exact List.not_mem_nil

theorem expires_tick (machine : Machine) :
    machine.Expires .tick ↔ machine.registers.timers.sound = 1 := by
  have idle : machine.Idle .tick := .of_other nofun nofun
  rw [Expires,loaded_idle idle]
  simp [ticks]

theorem not_expires_other (unstepped : request ≠ .step) (unticked : request ≠ .tick) :
    ¬machine.Expires request := by
  have uncounted : machine.counts request = false := by
    cases request with
    | step => exact absurd rfl unstepped
    | _ => rfl
  simp [Expires,ticks,completes,uncounted,unticked]

/-- An expiry is told once, and by the request that makes it. -/
theorem count_expired (machine : Machine) (request : Request) :
    (machine.serve request).log.count .soundExpired = if machine.Expires request then 1 else 0 := by
  by_cases stepping : request = .step
  · subst stepping
    have log : (machine.serve .step).log = machine.told := step_log machine
    rw [log,told,List.count_append,List.count_eq_zero.mpr machine.unexpired_announced,Nat.zero_add]
    split <;> rfl
  by_cases ticking : request = .tick
  · subst ticking
    rw [if_congr machine.expires_tick rfl rfl]
    change (if decide (machine.registers.timers.sound = 1) then [LogEntry.soundExpired] else []).count _ = _
    simp only [decide_eq_true_eq]
    split <;> rfl
  · rw [if_neg (not_expires_other stepping ticking)]
    exact List.count_eq_zero.mpr (unexpired_serve stepping ticking)

theorem loaded_timers (machine : Machine) (request : Request) :
    (∃ word, machine.Executes request word ∧ OfForm "Fx15" word ∧ machine.loaded request =
        {machine.registers.timers with delay := machine.registers.get (operand word)}) ∨
      (∃ word, machine.Executes request word ∧ OfForm "Fx18" word ∧ machine.loaded request =
        {machine.registers.timers with sound := machine.registers.get (operand word)}) ∨
      machine.loaded request = machine.registers.timers := by
  by_cases idle : machine.Idle request
  · exact .inr (.inr (loaded_idle idle))
  obtain ⟨word,executes⟩ := not_forall_not.mp idle
  rw [loaded_executed executes]
  cases decoded : Instruction.decode word with
  | setDelay x =>
    have fits : OfForm "Fx15" word := Instruction.decode_ofForm (by rw [decoded]; rfl)
    have named : x = operand word := Instruction.decode_register (by rw [decoded]; rfl)
    exact .inl ⟨word,executes,fits,named ▸ rfl⟩
  | setSound x =>
    have fits : OfForm "Fx18" word := Instruction.decode_ofForm (by rw [decoded]; rfl)
    have named : x = operand word := Instruction.decode_register (by rw [decoded]; rfl)
    exact .inr (.inl ⟨word,executes,fits,named ▸ rfl⟩)
  | _ => exact .inr (.inr rfl)

theorem loaded_sound (unset : ∀ word, machine.Executes request word → ¬OfForm "Fx18" word) :
    (machine.loaded request).sound = machine.registers.timers.sound := by
  rcases machine.loaded_timers request with
    ⟨word,executes,fits,loaded⟩ | ⟨word,executes,fits,loaded⟩ | loaded
  · rw [loaded]
  · exact absurd fits (unset word executes)
  · rw [loaded]

theorem expires_unset (unset : ∀ word, machine.Executes request word → ¬OfForm "Fx18" word) :
    machine.Expires request ↔
      machine.ticks request ∧ machine.registers.timers.sound.toNat = 1 := by
  rw [Expires,loaded_sound unset,← UInt8.toNat_inj]
  rfl

theorem loaded_delay (unset : ∀ word, machine.Executes request word → ¬OfForm "Fx15" word) :
    (machine.loaded request).delay = machine.registers.timers.delay := by
  rcases machine.loaded_timers request with
    ⟨word,executes,fits,loaded⟩ | ⟨word,executes,fits,loaded⟩ | loaded
  · exact absurd fits (unset word executes)
  · rw [loaded]
  · rw [loaded]

theorem Executes.sounds {word : UInt16} (executes : machine.Executes request word)
    (fits : OfForm "Fx18" word) :
    (machine.loaded request).sound = machine.registers.get (operand word) := by
  obtain ⟨x,decoded⟩ := decode_sets fits
  have named : x = operand word := Instruction.decode_register (by rw [decoded]; rfl)
  rw [loaded_executed executes,decoded,named]
  rfl

theorem Executes.lasting {word : UInt16} (executes : machine.Executes request word)
    (entropy : ChaCha.Key) : request ≠ .reset entropy := by
  rintro rfl
  rcases executes.taken with offered | ⟨stepping,_⟩
  · cases offered
  · cases stepping

def ticked (machine : Machine) : List Request → Nat
  | [] => 0
  | request :: history =>
    (machine.ticks request).toNat + (machine.serve request).machine.ticked history

section Timer
variable {form : String} {timer : Timers → UInt8}
  (counts : ∀ timers, timer timers.tick.1 = countDown (timer timers))
  (loads : ∀ {machine : Machine} {request : Request},
    (∀ word, machine.Executes request word → ¬OfForm form word) →
      timer (machine.loaded request) = timer machine.registers.timers)
include counts loads

theorem timer_served (lasting : ∀ entropy, request ≠ .reset entropy)
    (unset : ∀ word, machine.Executes request word → ¬OfForm form word) :
    (timer (machine.serve request).machine.registers.timers).toNat =
      (timer machine.registers.timers).toNat - (machine.ticks request).toNat := by
  rw [serve_timers machine lasting,← loads unset]
  cases machine.ticks request with
  | true =>
    rw [if_pos rfl,counts]
    exact countDown_toNat _
  | false => rfl

/-- A timer that no word of the history loads goes down by one with every tick. -/
theorem timer_ticked (lasting : ∀ entropy, .reset entropy ∉ history)
    (unset : machine.Avoids form history) :
    (timer (machine.after history).registers.timers).toNat =
      (timer machine.registers.timers).toNat - machine.ticked history := by
  induction history generalizing machine with
  | nil => rfl
  | cons request history ih =>
    have other (entropy : ChaCha.Key) : request ≠ .reset entropy :=
      fun same => lasting entropy (same ▸ List.mem_cons_self)
    have later (entropy : ChaCha.Key) : .reset entropy ∉ history :=
      fun member => lasting entropy (List.mem_cons_of_mem request member)
    rw [ticked,← Nat.sub_sub,← timer_served counts loads other unset.1]
    exact ih later unset.2

end Timer

section Unset
variable (lasting : ∀ entropy, .reset entropy ∉ history) (unset : machine.Avoids "Fx18" history)
include lasting unset

theorem sound_ticked : (machine.after history).registers.timers.sound.toNat =
    machine.registers.timers.sound.toNat - machine.ticked history :=
  timer_ticked (fun _ => rfl) loaded_sound lasting unset

/-- All expiries along a history: there is one if the ticks take the sound down to zero. -/
theorem count_expiries : ((machine.replies history).flatMap (·.log)).count .soundExpired =
    if 0 < machine.registers.timers.sound.toNat ∧
      machine.registers.timers.sound.toNat ≤ machine.ticked history then 1 else 0 := by
  induction history generalizing machine with
  | nil =>
    rw [if_neg (by simp only [ticked]; omega)]
    rfl
  | cons request history ih =>
    have other (entropy : ChaCha.Key) : request ≠ .reset entropy :=
      fun same => lasting entropy (same ▸ List.mem_cons_self)
    have later (entropy : ChaCha.Key) : .reset entropy ∉ history :=
      fun member => lasting entropy (List.mem_cons_of_mem request member)
    have now : (machine.serve request).machine.registers.timers.sound.toNat =
        machine.registers.timers.sound.toNat - (machine.ticks request).toNat :=
      timer_served (fun _ => rfl) loaded_sound other unset.1
    rw [replies,List.flatMap_cons,List.count_append,count_expired,ih later unset.2,now,ticked,
      if_congr (expires_unset unset.1) rfl rfl]
    -- A tick takes one from both sides of the bound, and the one at which the sound is one is the last.
    cases machine.ticks request with
    | false => simp
    | true =>
      simp only [Bool.toNat_true,true_and]
      split <;> split <;> split <;> omega

end Unset

/-- Behind `past` the sound expires with the request that brings its last tick. -/
theorem expires_iff {past rest : List Request} (lasting : ∀ entropy, .reset entropy ∉ past)
    (unset : machine.Avoids "Fx18" (past ++ request :: rest)) :
    (machine.after past).Expires request ↔ (machine.after past).ticks request ∧
      machine.ticked past + 1 = machine.registers.timers.sound.toNat := by
  have left := sound_ticked lasting unset.of_append
  rw [expires_unset unset.behind.1,left]
  refine and_congr_right fun _ => ?_
  omega

/-- A sound ends once. Along a history that neither sets the sound timer nor resets the machine, the
timers go down by one with every tick, whether the host or the count makes it, and the tick that brings
the sound timer to zero tells of it, and is answered so if it is the host's. No other request does, nor
one that sets the sound timer to zero. -/
theorem sound_expires_once (machine : Machine) (history : List Request)
    (lasting : ∀ entropy, .reset entropy ∉ history) (unset : machine.Avoids "Fx18" history) :
    let sound := machine.registers.timers.sound.toNat
    let later := machine.after history
    later.registers.timers.sound.toNat = sound - machine.ticked history ∧
    (machine.Avoids "Fx15" history → later.registers.timers.delay.toNat =
      machine.registers.timers.delay.toNat - machine.ticked history) ∧
    (∀ past request rest, history = past ++ request :: rest →
      let reply := (machine.after past).serve request
      let last := (machine.after past).ticks request ∧ machine.ticked past + 1 = sound
      reply.log.count .soundExpired = (if last then 1 else 0) ∧
        (request = .tick → reply.answer = .flag last)) ∧
    ((machine.replies history).flatMap (·.log)).count .soundExpired =
      (if 0 < sound ∧ sound ≤ machine.ticked history then 1 else 0) ∧
    ∀ request word, later.Executes request word → OfForm "Fx18" word →
      later.registers.get (operand word) = 0 →
        .soundExpired ∉ (later.serve request).log ∧
          (later.serve request).machine.registers.timers.sound = 0 := by
  intro sound later
  refine ⟨sound_ticked lasting unset,?_,?_,count_expiries lasting unset,?_⟩
  · exact timer_ticked (fun _ => rfl) loaded_delay lasting
  · rintro past request rest rfl reply last
    have before (entropy : ChaCha.Key) : .reset entropy ∉ past :=
      fun member => lasting entropy (List.mem_append_left _ member)
    have expires : (machine.after past).Expires request ↔ last := expires_iff before unset
    refine ⟨(count_expired _ request).trans (if_congr expires rfl rfl),?_⟩
    rintro rfl
    exact congrArg Answer.flag (decide_eq_decide.mpr ((expires_tick _).symm.trans expires))
  · intro request word executes fits zero
    have silent : (later.loaded request).sound = 0 := (executes.sounds fits).trans zero
    have unexpired : ¬later.Expires request := by simp [Expires,silent]
    have told := count_expired later request
    rw [if_neg unexpired] at told
    refine ⟨List.count_eq_zero.mp told,?_⟩
    rw [serve_timers later executes.lasting]
    split
    · change countDown (later.loaded request).sound = 0
      rw [silent]
      rfl
    · exact silent

/-- The sound of two ticks ends with the second one, which the count makes while the machine waits for a
key, and not with the third. -/
theorem sound_expires_once_waiting :
    let machine := (fresh {drive := .everyInstructions 2} (Vector.replicate 8 0)).after
      [.execute 0x6002,.execute 0xF018,.execute 0xF00A]
    let history : List Request := [.tick,.step,.step,.tick]
    machine.registers.timers.sound = 2 ∧
      ((machine.after [.tick,.step]).serve .step).log.count .soundExpired = 1 ∧
      ((machine.replies history).flatMap (·.log)).count .soundExpired = 1 := by
  intro machine history
  have sound : machine.registers.timers.sound = 2 := by decide +kernel
  have ticked : machine.ticked history = 3 := by decide +kernel
  have unset : machine.Avoids "Fx18" history := by decide +kernel
  have last : (machine.after [.tick,.step]).ticks .step ∧ machine.ticked [.tick,.step] + 1 = 2 := by
    decide +kernel
  obtain ⟨_,_,told,total,_⟩ := sound_expires_once machine history (by simp [history]) unset
  obtain ⟨second,_⟩ := told [.tick,.step] .step [.tick] rfl
  rw [sound] at second total
  rw [ticked] at total
  exact ⟨sound,second.trans (if_pos last),total⟩

end Machine

end Chip8
