import Chip8.Proofs.Machine.Requests
import Chip8.Proofs.Memory.Words

/-! The two ways to drive a machine whose timers are left to the host. One host
steps. The other fetches and executes, and keeps a word that was refused because
the machine waits for a key. The hosts see the same and lose no instruction. -/
namespace Chip8

inductive HostEvent where
  | press (code : UInt8)
  | release (code : UInt8)
  | wait (codes : List (Option UInt8))
  | cancelWait
  | tick
deriving DecidableEq

def HostEvent.request : HostEvent → Request
  | .press code => .press code
  | .release code => .release code
  | .wait codes => .wait codes
  | .cancelWait => .cancelWait
  | .tick => .tick

inductive Occasion where
  | turn
  | event (event : HostEvent)
deriving DecidableEq

inductive Sight where
  | turn (status : Status)
  | failed (fault : Fault)
  | event (answer : Answer)
deriving DecidableEq

def Sight.ofTurn : Except Fault Status → Sight
  | .ok status => .turn status
  | .error fault => .failed fault

namespace Machine

def occasion (machine : Machine) : Occasion → Sight × Machine
  | .turn => (.ofTurn machine.step.answer,machine.step.machine)
  | .event event =>
    let reply := machine.serve event.request
    (.event reply.answer,reply.machine)

def stepping (machine : Machine) : List Occasion → List Sight × Machine
  | [] => ([],machine)
  | occasion :: schedule =>
    let (sight,left) := machine.occasion occasion
    let (sights,last) := left.stepping schedule
    (sight :: sights,last)

end Machine

/-- A host that offers words to a machine, and the word that it holds back. -/
structure OfferingHost where
  machine : Machine
  held : Option UInt16

namespace OfferingHost

def offer (machine : Machine) (word : UInt16) : Except Fault Status × OfferingHost :=
  let executed := machine.execute word
  (executed.answer,⟨executed.machine,if machine.status = .awaitingKey then some word else none⟩)

def turn (host : OfferingHost) : Except Fault Status × OfferingHost :=
  match host.held with
  | some word => offer host.machine word
  | none =>
    let fetched := host.machine.fetch
    match fetched.answer with
    | .ok word => offer fetched.machine word
    | .error fault => (.error fault,⟨fetched.machine,none⟩)

def occasion (host : OfferingHost) : Occasion → Sight × OfferingHost
  | .turn =>
    let (result,left) := host.turn
    (.ofTurn result,left)
  | .event event =>
    let reply := host.machine.serve event.request
    (.event reply.answer,{host with machine := reply.machine})

def offering (host : OfferingHost) : List Occasion → List Sight × OfferingHost
  | [] => ([],host)
  | occasion :: schedule =>
    let (sight,left) := host.occasion occasion
    let (sights,last) := left.offering schedule
    (sight :: sights,last)

/-- How far the machine of this host can be from that of a host that steps. -/
def Follows (host : OfferingHost) (machine : Machine) : Prop :=
  match host.held with
  | none => host.machine = machine
  | some word =>
    host.machine = machine.withRegisters .skip ∧
      host.machine.registers.counter.toNat = machine.registers.counter.toNat + 2 ∧
      machine.memory.readWord machine.registers.counter.toNat = .ok word

end OfferingHost

namespace Machine
variable {machine : Machine}

/-- A word that can be read lies inside memory, so that the counter does not go around behind it. -/
theorem skip_counter {word : UInt16}
    (found : machine.memory.readWord machine.registers.counter.toNat = .ok word) :
    (machine.withRegisters .skip).registers.counter.toNat = machine.registers.counter.toNat + 2 := by
  obtain ⟨inside,_⟩ := Memory.readWord_ok_iff.mp found
  change (machine.registers.counter + 2).toNat = _
  rw [UInt16.toNat_add]
  change (machine.registers.counter.toNat + 2) % 2 ^ 16 = _
  omega

theorem receive_skip (machine : Machine) (key : Key) :
    (machine.withRegisters .skip).receive key = (machine.receive key).withRegisters .skip := by
  cases activity : machine.activity with
  | running =>
    have running : (machine.withRegisters .skip).activity = .running := activity
    rw [receive_running activity,receive_running running]
    rfl
  | awaitingKey register =>
    have waiting : (machine.withRegisters .skip).activity = .awaitingKey register := activity
    rw [receive_parked activity,receive_parked waiting]
    rfl

theorem receive_frame (machine : Machine) (key : Key) :
    (machine.receive key).memory = machine.memory ∧
      (machine.receive key).registers.counter = machine.registers.counter := by
  cases activity : machine.activity with
  | running =>
    rw [receive_running activity]
    exact ⟨rfl,rfl⟩
  | awaitingKey register =>
    rw [receive_parked activity]
    exact ⟨rfl,rfl⟩

structure Apart (machine : Machine) (event : HostEvent) : Prop where
  answer : ((machine.withRegisters .skip).serve event.request).answer =
    (machine.serve event.request).answer
  skipped : ((machine.withRegisters .skip).serve event.request).machine =
    (machine.serve event.request).machine.withRegisters .skip
  memory : (machine.serve event.request).machine.memory = machine.memory
  counter : (machine.serve event.request).machine.registers.counter = machine.registers.counter

theorem press_apart (machine : Machine) (code : UInt8) : machine.Apart (.press code) := by
  have frame := machine.receive_frame
  have skipped := machine.receive_skip
  cases named : Key.ofCode? code with
  | some key =>
    obtain ⟨answer,left⟩ := press_named machine named
    obtain ⟨answer',left'⟩ := press_named (machine.withRegisters .skip) named
    refine ⟨?_,?_,?_,?_⟩ <;> simp only [HostEvent.request,serve,Reply.map,answer,answer',left,left']
    · exact skipped key
    · exact (frame key).1
    · exact (frame key).2
  | none =>
    refine ⟨?_,?_,?_,?_⟩ <;> simp only [HostEvent.request,serve,Reply.map,press_unnamed _ named]

theorem wait_apart (machine : Machine) (codes : List (Option UInt8)) : machine.Apart (.wait codes) := by
  have frame := machine.receive_frame
  have skipped := machine.receive_skip
  cases activity : machine.activity with
  | running =>
    have running : (machine.withRegisters .skip).activity = .running := activity
    refine ⟨?_,?_,?_,?_⟩ <;>
      simp only [HostEvent.request,serve,Reply.map,waitForKey_running activity,waitForKey_running running]
  | awaitingKey register =>
    have waiting : (machine.withRegisters .skip).activity = .awaitingKey register := activity
    cases arrived : (Arrival.await id codes).key with
    | none =>
      obtain ⟨answer,left⟩ := waitForKey_dry activity arrived
      obtain ⟨answer',left'⟩ := waitForKey_dry waiting arrived
      refine ⟨?_,?_,?_,?_⟩ <;> simp only [HostEvent.request,serve,Reply.map,answer,answer',left,left']
    | some key =>
      obtain ⟨answer,left⟩ := waitForKey_arrived activity arrived
      obtain ⟨answer',left'⟩ := waitForKey_arrived waiting arrived
      refine ⟨?_,?_,?_,?_⟩ <;> simp only [HostEvent.request,serve,Reply.map,answer,answer',left,left']
      · exact skipped key
      · exact (frame key).1
      · exact (frame key).2

theorem event_apart (machine : Machine) (event : HostEvent) : machine.Apart event := by
  cases event with
  | press code => exact press_apart machine code
  | release code =>
    cases named : Key.ofCode? code with
    | some key =>
      refine ⟨?_,?_,?_,?_⟩ <;> simp only [HostEvent.request,serve,Reply.map,release_named _ named]
      rfl
    | none =>
      refine ⟨?_,?_,?_,?_⟩ <;> simp only [HostEvent.request,serve,Reply.map,release_unnamed _ named]
  | wait codes => exact wait_apart machine codes
  | cancelWait =>
    cases activity : machine.activity with
    | running =>
      have running : (machine.withRegisters .skip).activity = .running := activity
      refine ⟨?_,?_,?_,?_⟩ <;>
        simp only [HostEvent.request,serve,Reply.map,cancelWait_running activity,cancelWait_running running]
    | awaitingKey register =>
      have waiting : (machine.withRegisters .skip).activity = .awaitingKey register := activity
      refine ⟨?_,?_,?_,?_⟩ <;>
        simp only [HostEvent.request,serve,Reply.map,cancelWait_parked activity,cancelWait_parked waiting]
      rfl
  | tick => exact ⟨rfl,rfl,rfl,rfl⟩

end Machine

namespace OfferingHost
variable {host : OfferingHost} {machine : Machine}

theorem offer_parked (machine : Machine) {register : Register} (waiting : machine.activity = .awaitingKey register)
    (word : UInt16) : offer machine word = (.ok .awaitingKey,⟨machine,some word⟩) := by
  obtain ⟨answer,left⟩ := Machine.execute_parked waiting word
  simp only [offer,answer,left,Machine.status_awaitingKey waiting,if_true]

theorem offer_ok (machine : Machine) {word : UInt16} {after : Machine} (running : machine.activity = .running)
    (applied : (Instruction.decode word).apply machine = .ok after) :
    offer machine word = (.ok after.status,⟨after,none⟩) := by
  obtain ⟨answer,left⟩ := Machine.execute_ok machine running applied
  simp only [offer,answer,left,Machine.status_running running]
  rfl

theorem offer_error (machine : Machine) {word : UInt16} {fault : Fault} (running : machine.activity = .running)
    (rejected : (Instruction.decode word).apply machine = .error fault) :
    offer machine word = (.error fault,⟨machine,none⟩) := by
  obtain ⟨answer,left⟩ := Machine.execute_error machine running rejected
  simp only [offer,answer,left,Machine.status_running running]
  rfl

/-- Fetched or held back, the word that is offered is the one at the counter of the other host. -/
theorem turn_found {word : UInt16} (follows : host.Follows machine)
    (found : machine.memory.readWord machine.registers.counter.toNat = .ok word) :
    host.turn = offer (machine.withRegisters .skip) word := by
  unfold Follows at follows
  cases holding : host.held with
  | none =>
    rw [holding] at follows
    simp only [turn,holding,show host.machine = machine from follows,Machine.fetch_ok found]
  | some kept =>
    rw [holding] at follows
    obtain ⟨skipped,ahead,read⟩ := follows
    have same : kept = word := Except.ok.inj (read.symm.trans found)
    simp only [turn,holding,skipped,same]

theorem turn_missing {fault : Fault} (follows : host.Follows machine)
    (missing : machine.memory.readWord machine.registers.counter.toNat = .error fault) :
    host.held = none ∧ host.turn = (.error fault,⟨machine,none⟩) := by
  unfold Follows at follows
  cases holding : host.held with
  | none =>
    rw [holding] at follows
    refine ⟨rfl,?_⟩
    simp only [turn,holding,show host.machine = machine from follows,Machine.fetch_error missing]
  | some kept =>
    rw [holding] at follows
    obtain ⟨skipped,ahead,read⟩ := follows
    rw [missing] at read
    cases read

inductive TurnCase (host : OfferingHost) (machine : Machine) : Prop where
  | agreed (status : Status) (stepped : machine.step.answer = .ok status)
      (offered : host.turn.1 = .ok status) (follows : host.turn.2.Follows machine.step.machine)
  | refused (fault : Fault) (stepped : machine.step.answer = .error fault)
      (offered : host.turn.1 = .error fault)
  | overrun (fault : Fault) (stepped : machine.step.answer = .ok .awaitingKey)
      (free : host.held = none) (offered : host.turn.1 = .error fault)

theorem turn_cases (hosted : machine.settings.drive = .host) (follows : host.Follows machine) :
    TurnCase host machine := by
  cases machine.step_cases with
  | parked register waiting answer left =>
    have stays : machine.step.machine = machine := by
      rw [left,Machine.countInstruction_host hosted,ite_self]
    cases found : machine.memory.readWord machine.registers.counter.toNat with
    | ok word =>
      have offered := turn_found follows found
      rw [offer_parked (machine.withRegisters .skip) waiting] at offered
      refine .agreed .awaitingKey answer (by rw [offered]) ?_
      rw [offered,stays]
      exact ⟨rfl,Machine.skip_counter found,found⟩
    | error fault =>
      obtain ⟨free,offered⟩ := turn_missing follows found
      exact .overrun fault answer free (by rw [offered])
  | unreadable fault running missing answer left =>
    obtain ⟨free,offered⟩ := turn_missing follows missing
    exact .refused fault answer (by rw [offered])
  | refused word fault running found rejected answer left =>
    have offered := turn_found follows found
    rw [offer_error (machine.withRegisters .skip) running rejected] at offered
    exact .refused fault answer (by rw [offered])
  | executed word after running found applied answer left =>
    have offered := turn_found follows found
    have frame := Instruction.apply_frame applied
    rw [offer_ok (machine.withRegisters .skip) running applied] at offered
    refine .agreed after.status answer (by rw [offered]) ?_
    rw [offered,left,Machine.countInstruction_host (frame.settings ▸ hosted)]
    exact rfl

theorem event_follows (follows : host.Follows machine) (event : HostEvent) :
    (host.occasion (.event event)).1 = (machine.occasion (.event event)).1 ∧
      (host.occasion (.event event)).2.Follows (machine.occasion (.event event)).2 := by
  have apart := machine.event_apart event
  unfold Follows at follows ⊢
  cases holding : host.held with
  | none =>
    rw [holding] at follows
    have same : host.machine = machine := follows
    simp only [occasion,Machine.occasion,holding,same,and_self]
  | some word =>
    rw [holding] at follows
    obtain ⟨skipped,ahead,read⟩ := follows
    simp only [occasion,Machine.occasion,holding,skipped,apart.answer,apart.skipped,true_and]
    have found : (machine.serve event.request).machine.memory.readWord
        (machine.serve event.request).machine.registers.counter.toNat = .ok word := by
      rw [apart.memory,apart.counter]
      exact read
    exact ⟨Machine.skip_counter found,found⟩

theorem occasion_settings (machine : Machine) (occasion : Occasion) :
    (machine.occasion occasion).2.settings = machine.settings := by
  cases occasion with
  | turn => exact (Machine.serve_counting machine .step).settings
  | event event => exact (Machine.serve_counting machine event.request).settings

theorem occasion_follows (hosted : machine.settings.drive = .host) (follows : host.Follows machine)
    (occasion : Occasion) (stepped : ∀ fault, (machine.occasion occasion).1 ≠ .failed fault)
    (offered : ∀ fault, (host.occasion occasion).1 ≠ .failed fault) :
    (host.occasion occasion).1 = (machine.occasion occasion).1 ∧
      (host.occasion occasion).2.Follows (machine.occasion occasion).2 := by
  cases occasion with
  | turn =>
    cases turn_cases hosted follows with
    | agreed status answer result follows =>
      simp only [OfferingHost.occasion,Machine.occasion,answer,result,true_and]
      exact follows
    | refused fault answer result => exact absurd (congrArg Sight.ofTurn answer) (stepped fault)
    | overrun fault answer free result => exact absurd (congrArg Sight.ofTurn result) (offered fault)
  | event event => exact event_follows follows event

theorem schedule_follows (hosted : machine.settings.drive = .host) (follows : host.Follows machine)
    (schedule : List Occasion) (stepped : ∀ fault, .failed fault ∉ (machine.stepping schedule).1)
    (offered : ∀ fault, .failed fault ∉ (host.offering schedule).1) :
    (host.offering schedule).1 = (machine.stepping schedule).1 ∧
      (host.offering schedule).2.Follows (machine.stepping schedule).2 ∧
      (machine.stepping schedule).2.settings.drive = .host := by
  induction schedule generalizing machine host with
  | nil => exact ⟨rfl,follows,hosted⟩
  | cons occasion schedule ih =>
    simp only [Machine.stepping,OfferingHost.offering,List.mem_cons,not_or] at stepped offered ⊢
    obtain ⟨alike,together⟩ := occasion_follows hosted follows occasion
      (fun fault => Ne.symm (stepped fault).1) (fun fault => Ne.symm (offered fault).1)
    have settled : (machine.occasion occasion).2.settings.drive = .host := by
      rw [occasion_settings]
      exact hosted
    obtain ⟨sights,last⟩ := ih settled together (fun fault => (stepped fault).2)
      (fun fault => (offered fault).2)
    refine ⟨?_,last⟩
    rw [alike,sights]

/-- As long as no turn of either host fails, both see the same, and the word that the one holds
back is the next one of the other. On the next turn they fail alike, unless the host that offers
fetches past the end of memory for a machine that waits. -/
theorem hosts_agree (machine : Machine) (hosted : machine.settings.drive = .host)
    (schedule : List Occasion) (stepped : ∀ fault, .failed fault ∉ (machine.stepping schedule).1)
    (offered : ∀ fault, .failed fault ∉ (offering ⟨machine,none⟩ schedule).1) :
    (offering ⟨machine,none⟩ schedule).1 = (machine.stepping schedule).1 ∧
      (offering ⟨machine,none⟩ schedule).2.Follows (machine.stepping schedule).2 ∧
      TurnCase (offering ⟨machine,none⟩ schedule).2 (machine.stepping schedule).2 := by
  have start : Follows ⟨machine,none⟩ machine := rfl
  obtain ⟨sights,together,settled⟩ := schedule_follows hosted start schedule stepped offered
  exact ⟨sights,together,turn_cases settled together⟩

/-- A program that waits for a key and then sets a register, and a key that comes meanwhile. -/
theorem hosts_agree_waiting :
    let machine := (Machine.fresh {} (Vector.replicate 8 0)).after [.load [0xF0,0x0A,0x61,0x05]]
    let schedule := [.turn,.turn,.event (.press 7),.turn]
    (offering ⟨machine,none⟩ schedule).1 = (machine.stepping schedule).1 ∧
      (offering ⟨machine,none⟩ schedule).2.Follows (machine.stepping schedule).2 := by
  intro machine schedule
  let sights : List Sight :=
    [.turn .awaitingKey,.turn .awaitingKey,.event .done,.turn .running]
  have stepped : (machine.stepping schedule).1 = sights := by decide +kernel
  have offered : (offering ⟨machine,none⟩ schedule).1 = sights := by decide +kernel
  have faultless (fault : Fault) : Sight.failed fault ∉ sights := by simp [sights]
  obtain ⟨alike,together,_⟩ := hosts_agree machine (by decide +kernel) schedule
    (fun fault => stepped ▸ faultless fault) (fun fault => offered ▸ faultless fault)
  exact ⟨alike,together⟩

end OfferingHost

end Chip8
