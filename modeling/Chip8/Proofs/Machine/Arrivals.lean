import Chip8.Proofs.Device.Refinement

/-! What a wait takes from its source of events. The events before the first one with
a key are passed over, that one does what pressing its key does, and the events
behind it stay where they are. -/
namespace Chip8

namespace Arrival
variable {ε : Type} {map : ε → Option UInt8} {event : ε} {events passed : List ε}

def Names (map : ε → Option UInt8) (event : ε) : Prop :=
  ∃ code, map event = some code ∧ code.toNat ≤ 15

theorem await_named {key : Key} (named : map event = some key.code) (events : List ε) :
    await map (event :: events) = ⟨some key,events,[]⟩ := by
  simp only [await,named,Key.ofCode?_code]

theorem await_unnamed (unnamed : ¬Names map event) (events : List ε) :
    (await map (event :: events)).key = (await map events).key ∧
      (await map (event :: events)).remaining = (await map events).remaining := by
  simp only [await]
  cases mapped : map event with
  | none => exact ⟨rfl,rfl⟩
  | some code =>
    have outside : Key.ofCode? code = none := by
      rw [Key.ofCode?_eq_none,← Nat.not_le]
      exact fun inside => unnamed ⟨code,mapped,inside⟩
    simp only [outside,and_self]

theorem await_passed (unnamed : ∀ other ∈ passed, ¬Names map other) (events : List ε) :
    (await map (passed ++ events)).key = (await map events).key ∧
      (await map (passed ++ events)).remaining = (await map events).remaining := by
  induction passed with
  | nil => exact ⟨rfl,rfl⟩
  | cons first passed ih =>
    obtain ⟨here,later⟩ := List.forall_mem_cons.mp unnamed
    obtain ⟨key,remaining⟩ := await_unnamed here (passed ++ events)
    exact ⟨key.trans (ih later).1,remaining.trans (ih later).2⟩

theorem await_dry (unnamed : ∀ event ∈ events, ¬Names map event) :
    (await map events).key = none ∧ (await map events).remaining = [] := by
  have all := await_passed unnamed []
  rw [List.append_nil] at all
  exact all

/-- A key that arrives is that of the first event with one, and what follows this event is left. -/
theorem await_first (named : ∃ event ∈ events, Names map event) :
    ∃ passed event rest key, events = passed ++ event :: rest ∧
      (∀ other ∈ passed, ¬Names map other) ∧ map event = some (Key.code key) ∧
      (await map events).key = some key ∧ (await map events).remaining = rest := by
  -- Either the head has a key and ends the wait, or the split is that of the tail with the head in front.
  induction events with
  | nil => simp at named
  | cons first events ih =>
    by_cases here : Names map first
    · obtain ⟨code,mapped,inside⟩ := here
      have key : Key.code ⟨code.toNat,Nat.lt_succ_of_le inside⟩ = code := UInt8.ofNat_toNat
      have mapped' := mapped.trans (congrArg some key.symm)
      have awaited := await_named mapped' events
      exact ⟨[],first,events,_,rfl,by simp,mapped',congrArg Arrival.key awaited,
        congrArg Arrival.remaining awaited⟩
    · obtain ⟨passed,event,rest,key,split,unnamed,mapped,arrived,left⟩ :=
        ih (by simpa [here] using named)
      obtain ⟨same,remaining⟩ := await_unnamed here events
      refine ⟨first :: passed,event,rest,key,by simp [split],?_,mapped,same.trans arrived,
        remaining.trans left⟩
      exact List.forall_mem_cons.mpr ⟨here,unnamed⟩

end Arrival

namespace Machine
open Arrival (Names)
variable {ε : Type} {map : ε → Option UInt8} {events others : List ε}

/-- Sources that give the same key and leave the same behind it make the same of a machine. -/
theorem waitForKey_congr (machine : Machine)
    (key : (Arrival.await map others).key = (Arrival.await map events).key)
    (remaining : (Arrival.await map others).remaining = (Arrival.await map events).remaining) :
    (machine.waitForKey map others).answer.1 = (machine.waitForKey map events).answer.1 ∧
      (machine.waitForKey map others).machine = (machine.waitForKey map events).machine ∧
      (machine.status = .awaitingKey →
        (machine.waitForKey map others).answer.2 = (machine.waitForKey map events).answer.2) := by
  cases activity : machine.activity with
  | running =>
    rw [waitForKey_running activity,waitForKey_running activity,status_running activity]
    exact ⟨rfl,rfl,nofun⟩
  | awaitingKey register =>
    obtain ⟨answer,left⟩ := waitForKey_parked activity map events
    obtain ⟨answer',left'⟩ := waitForKey_parked activity map others
    rw [answer,left,answer',left',key,remaining]
    exact ⟨rfl,rfl,fun _ => rfl⟩

theorem press_code (machine : Machine) (key : Key) :
    (machine.press key.code).answer = .ok () ∧ (machine.press key.code).machine = machine.receive key :=
  press_named machine (Key.ofCode?_code key)

theorem waits_of_status {machine : Machine} (waiting : machine.status = .awaitingKey) :
    ∃ register, machine.activity = .awaitingKey register := by
  cases activity : machine.activity with
  | running => cases (status_running activity).symm.trans waiting
  | awaitingKey register => exact ⟨register,rfl⟩

/-- Waiting is pressing the first key that comes. A machine that waits for nothing takes no event.
One that waits takes all of them if none has a key, and else those up to the first one with a key,
which is its answer and leaves what a press of it would have left; on the device, where the two go
different ways, too. Events without a key can come and go in front of that one. -/
theorem wait_presses_first (machine : Machine) (map : ε → Option UInt8) (events : List ε) :
    let waited := machine.waitForKey map events
    (machine.status = .running → waited.answer = (none,events) ∧ waited.machine = machine) ∧
    (machine.status = .awaitingKey → (∀ event ∈ events, ¬Names map event) →
      waited.answer = (none,[]) ∧ waited.machine = machine) ∧
    (machine.status = .awaitingKey → (∃ event ∈ events, Names map event) →
      ∃ passed event rest key, events = passed ++ event :: rest ∧
        (∀ other ∈ passed, ¬Names map other) ∧ map event = some (Key.code key) ∧
        waited.answer = (some key,rest) ∧
        (machine.press key.code).answer = .ok () ∧
        waited.machine = (machine.press key.code).machine ∧
        ∃ left, (Device.press key.code).run machine.onDevice = .done () left ∧
          (Device.waitForKey map events).run machine.onDevice = .done (some key.code,rest) left) ∧
    (∀ passed others behind, (∀ event ∈ passed, ¬Names map event) →
      (∀ event ∈ others, ¬Names map event) →
      let first := machine.waitForKey map (passed ++ behind)
      let second := machine.waitForKey map (others ++ behind)
      second.answer.1 = first.answer.1 ∧ second.machine = first.machine ∧
        (machine.status = .awaitingKey → second.answer.2 = first.answer.2)) := by
  intro waited
  refine ⟨fun runs => ?_,fun waits unnamed => ?_,fun waits named => ?_,?_⟩
  · cases activity : machine.activity with
    | running => simp only [waited,waitForKey_running activity,and_self]
    | awaitingKey register => cases (status_awaitingKey activity).symm.trans runs
  · obtain ⟨register,waiting⟩ := waits_of_status waits
    obtain ⟨dry,remaining⟩ := Arrival.await_dry unnamed
    obtain ⟨answer,left⟩ := waitForKey_dry waiting dry
    exact ⟨answer.trans (congrArg _ remaining),left⟩
  · obtain ⟨register,waiting⟩ := waits_of_status waits
    obtain ⟨passed,event,rest,key,split,unnamed,mapped,arrived,remaining⟩ := Arrival.await_first named
    obtain ⟨answer,left⟩ := waitForKey_arrived waiting arrived
    obtain ⟨accepted,pressed⟩ := machine.press_code key
    have onDevice := Device.press_run machine key.code
    have awaited := Device.waitForKey_run machine map events
    simp only [Outcome.ofReply,accepted,pressed] at onDevice
    simp only [answer,left,remaining] at awaited
    exact ⟨passed,event,rest,key,split,unnamed,mapped,answer.trans (congrArg _ remaining),accepted,
      left.trans pressed.symm,_,onDevice,awaited⟩
  · intro passed others behind unnamed unnamed'
    obtain ⟨key,remaining⟩ := Arrival.await_passed unnamed behind
    obtain ⟨key',remaining'⟩ := Arrival.await_passed unnamed' behind
    exact waitForKey_congr machine (key'.trans key.symm) (remaining'.trans remaining.symm)

/-- An event without a key and one outside the pad are passed over, and the second key stays. -/
theorem wait_presses_first_seven :
    let machine := (fresh {} (Vector.replicate 8 0)).after [.execute 0xF30A]
    let waited := machine.waitForKey id [none,some 0x40,some 7,none,some 2]
    waited.answer = (some 7,[none,some 2]) ∧ waited.machine = (machine.press 7).machine := by
  intro machine waited
  have waits : machine.status = .awaitingKey := by decide +kernel
  have answered : waited.answer = (some 7,[none,some 2]) := by decide +kernel
  obtain ⟨_,_,first,_⟩ := wait_presses_first machine id [none,some 0x40,some 7,none,some 2]
  obtain ⟨_,_,_,key,_,_,_,answer,_,left,_⟩ := first waits ⟨some 7,by simp,7,rfl,by decide⟩
  have same : key = 7 := Option.some.inj (congrArg Prod.fst (answer.symm.trans answered))
  rw [same] at left
  exact ⟨answered,left⟩

end Machine

end Chip8
