import Chip8.Machine.KeyWait
import Chip8.Proofs.Machine.Execution

/-! What the requests about keys make of a machine. A key that comes is held
down, and ends a wait if there is one. -/
namespace Chip8

theorem Key.ofCode?_eq_some {code : UInt8} {key : Key} : Key.ofCode? code = some key ↔ key.code = code := by
  constructor
  · intro named
    unfold ofCode? at named
    split at named
    · cases named
      exact UInt8.ofNat_toNat
    · cases named
  · rintro rfl
    exact ofCode?_code key

theorem Key.ofCode?_eq_none {code : UInt8} : Key.ofCode? code = none ↔ 15 < code.toNat := by
  unfold ofCode?
  split <;> simp <;> omega

/-- What is done to the events of a source can be done to what they are mapped to. -/
theorem Arrival.await_map {ε : Type} (map : ε → Option UInt8) (events : List ε) :
    Arrival.await id (events.map map) =
      ⟨(Arrival.await map events).key,(Arrival.await map events).remaining.map map,
        (Arrival.await map events).log⟩ := by
  induction events with
  | nil => rfl
  | cons event events ih =>
    simp only [List.map_cons,await,id_eq,ih]
    cases map event with
    | none => rfl
    | some code =>
      dsimp only
      cases Key.ofCode? code <;> rfl

/-- A source gives a key exactly when one of its events is mapped to a key of the pad. -/
theorem Arrival.key_eq_none {ε : Type} {map : ε → Option UInt8} {events : List ε} :
    (Arrival.await map events).key = none ↔
      ∀ event ∈ events, ∀ code, map event = some code → 15 < code.toNat := by
  induction events with
  | nil => simp [await]
  | cons event events ih =>
    simp only [await,List.forall_mem_cons]
    cases mapped : map event with
    | none => simp [ih]
    | some code =>
      cases named : Key.ofCode? code with
      | none =>
        have outside := Key.ofCode?_eq_none.mp named
        simp [named,ih,outside]
      | some key =>
        have inside : ¬15 < code.toNat := by
          rw [← Key.ofCode?_eq_none,named]
          simp
        simp [named,inside]

namespace Machine
variable {machine : Machine}

def receive (machine : Machine) (key : Key) : Machine :=
  ({machine with keypad := machine.keypad.set key true}.resolveWait key).machine

theorem receive_running (running : machine.activity = .running) (key : Key) :
    machine.receive key = {machine with keypad := machine.keypad.set key true} := by
  simp only [receive,resolveWait,running]

theorem receive_parked {register : Register} (waiting : machine.activity = .awaitingKey register)
    (key : Key) :
    machine.receive key = {machine with
      keypad := machine.keypad.set key true
      registers := machine.registers.set register key.code
      activity := .running} := by
  simp only [receive,resolveWait,waiting]

theorem receive_keypad (machine : Machine) (key : Key) :
    (machine.receive key).keypad = machine.keypad.set key true := by
  cases activity : machine.activity with
  | running => rw [receive_running activity]
  | awaitingKey register => rw [receive_parked activity]

theorem press_named (machine : Machine) {code : UInt8} {key : Key} (named : Key.ofCode? code = some key) :
    (machine.press code).answer = .ok () ∧ (machine.press code).machine = machine.receive key := by
  constructor <;> simp only [press,receive,named]

theorem press_unnamed (machine : Machine) {code : UInt8} (unnamed : Key.ofCode? code = none) :
    machine.press code = ⟨.error (.invalidKey code),machine,[]⟩ := by
  simp only [press,unnamed]

theorem press_received (machine : Machine) (code : UInt8) :
    (machine.press code).machine = machine ∨
      ∃ key, (machine.press code).machine = machine.receive key := by
  cases named : Key.ofCode? code with
  | some key => exact .inr ⟨key,(press_named machine named).2⟩
  | none => exact .inl (congrArg Reply.machine (press_unnamed machine named))

theorem release_named (machine : Machine) {code : UInt8} {key : Key} (named : Key.ofCode? code = some key) :
    machine.release code = ⟨.ok (),{machine with keypad := machine.keypad.set key false},[]⟩ := by
  simp only [release,Keypad.record,named]

theorem release_unnamed (machine : Machine) {code : UInt8} (unnamed : Key.ofCode? code = none) :
    machine.release code = ⟨.error (.invalidKey code),machine,[]⟩ := by
  simp only [release,Keypad.record,unnamed]

section Wait
variable {ε : Type} {map : ε → Option UInt8} {events : List ε}

theorem waitForKey_running (running : machine.activity = .running) :
    machine.waitForKey map events = ⟨(none,events),machine,[]⟩ := by
  simp only [waitForKey,running]

/-- What a wait makes of the arrival that ends it. -/
theorem waitForKey_parked {register : Register} (waiting : machine.activity = .awaitingKey register)
    (map : ε → Option UInt8) (events : List ε) :
    (machine.waitForKey map events).answer =
        ((Arrival.await map events).key,(Arrival.await map events).remaining) ∧
      (machine.waitForKey map events).machine =
        (Arrival.await map events).key.elim machine machine.receive := by
  cases arrived : (Arrival.await map events).key with
  | none =>
    refine ⟨by simp only [waitForKey,Keypad.await,waiting,arrived],?_⟩
    simp only [waitForKey,Keypad.await,waiting,arrived,Option.elim_none]
    rw [← waiting]
  | some key =>
    constructor <;> simp only [waitForKey,Keypad.await,receive,waiting,arrived,Option.elim_some]

theorem waitForKey_dry {register : Register} (waiting : machine.activity = .awaitingKey register)
    (dry : (Arrival.await map events).key = none) :
    (machine.waitForKey map events).answer = (none,(Arrival.await map events).remaining) ∧
      (machine.waitForKey map events).machine = machine := by
  have parked := waitForKey_parked waiting map events
  rwa [dry] at parked

theorem waitForKey_arrived {register : Register} {key : Key}
    (waiting : machine.activity = .awaitingKey register)
    (arrived : (Arrival.await map events).key = some key) :
    (machine.waitForKey map events).answer = (some key,(Arrival.await map events).remaining) ∧
      (machine.waitForKey map events).machine = machine.receive key := by
  have parked := waitForKey_parked waiting map events
  rwa [arrived] at parked

theorem waitForKey_received (machine : Machine) (map : ε → Option UInt8) (events : List ε) :
    (machine.waitForKey map events).machine = machine ∨
      ∃ key, (machine.waitForKey map events).machine = machine.receive key := by
  cases activity : machine.activity with
  | running => exact .inl (congrArg Reply.machine (waitForKey_running activity))
  | awaitingKey register =>
    cases arrived : (Arrival.await map events).key with
    | none => exact .inl (waitForKey_dry activity arrived).2
    | some key => exact .inr ⟨key,(waitForKey_arrived activity arrived).2⟩

/-- To wait on a source is to wait on what its events are mapped to. -/
theorem waitForKey_map (machine : Machine) (map : ε → Option UInt8) (events : List ε) :
    (machine.waitForKey id (events.map map)).machine = (machine.waitForKey map events).machine ∧
      (machine.waitForKey id (events.map map)).answer =
        ((machine.waitForKey map events).answer.1,(machine.waitForKey map events).answer.2.map map) := by
  have mapped := Arrival.await_map map events
  have key := congrArg Arrival.key mapped
  have remaining := congrArg Arrival.remaining mapped
  cases activity : machine.activity with
  | running =>
    rw [waitForKey_running activity,waitForKey_running activity]
    exact ⟨rfl,rfl⟩
  | awaitingKey register =>
    obtain ⟨answer,left⟩ := waitForKey_parked activity map events
    obtain ⟨answer',left'⟩ := waitForKey_parked activity id (events.map map)
    rw [answer,left,answer',left',key,remaining]
    exact ⟨rfl,rfl⟩

end Wait

theorem cancelWait_running (running : machine.activity = .running) :
    machine.cancelWait = ⟨false,machine,[]⟩ := by
  simp only [cancelWait,running]

theorem cancelWait_parked {register : Register} (waiting : machine.activity = .awaitingKey register) :
    machine.cancelWait = ⟨true,{machine with activity := .running},[.waitCancelled]⟩ := by
  simp only [cancelWait,waiting]

end Machine

end Chip8
