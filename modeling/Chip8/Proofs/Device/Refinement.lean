import Chip8.Device.Operation
import Chip8.Proofs.Device.Execution
import Chip8.Proofs.Machine.Requests

/-! A device serves every request as the machine does, and never crashes. What
carries this is the count of instructions, which stays below a period of
thirty-two bits. -/
namespace Chip8
open Routine

def Outcome.ofReply {α : Type} (reply : Reply (Except Fault α)) : Outcome Device α :=
  match reply.answer with
  | .ok value => .done value reply.machine.onDevice
  | .error fault => .refused fault reply.machine.onDevice

def Outcome.ofAnswer {σ : Type} (state : σ) : Answer → Outcome σ Answer
  | .fault fault => .refused fault state
  | answer => .done answer state

/-- Programs are held in memory of their own, which no machine has beyond this size. -/
def Request.Fits : Request → Prop
  | .load program => program.length < 2 ^ 63
  | _ => True

instance (request : Request) : Decidable request.Fits := by
  unfold Request.Fits
  split <;> infer_instance

namespace Device
variable (machine : Machine)

theorem status_run : status.run machine.onDevice = .done machine.status machine.onDevice := by
  have same : machine.activity.onDevice.status = machine.activity.status := by
    cases machine.activity <;> rfl
  exact congrArg (Outcome.done · machine.onDevice) same

theorem running_run {machine : Machine} (running : machine.activity = .running) :
    status.run machine.onDevice = .done .running machine.onDevice := by
  rw [status_run,Machine.status_running running]

theorem parked_run {machine : Machine} {register : Register}
    (waiting : machine.activity = .awaitingKey register) :
    status.run machine.onDevice = .done .awaitingKey machine.onDevice := by
  rw [status_run,Machine.status_awaitingKey waiting]

theorem execute_run (word : UInt16) :
    (execute word).run machine.onDevice = .ofReply (machine.execute word) := by
  have performed := perform_run machine word
  cases machine.execute_cases word with
  | parked register waiting answer left =>
    simp only [Outcome.ofReply,answer,left]
    exact bind_done (parked_run waiting)
  | refused fault running rejected answer left =>
    rw [rejected] at performed
    simp only [Outcome.ofReply,answer,left]
    exact (bind_done (running_run running)).trans (bind_refused performed)
  | executed after running applied answer left =>
    rw [applied] at performed
    simp only [Outcome.ofReply,answer,left]
    refine (bind_done (running_run running)).trans ((bind_done performed).trans ?_)
    exact status_run after

theorem max_toNat (period : UInt32) : (max period 1).toNat = max period.toNat 1 := by
  change (if period ≤ 1 then 1 else period).toNat = _
  split
  · rename_i small
    have bound : period.toNat ≤ 1 := small
    rw [Nat.max_eq_right bound]
    rfl
  · rename_i large
    have bound : ¬period.toNat ≤ 1 := large
    rw [Nat.max_eq_left (by omega)]

theorem countInstruction_run (counted : machine.Counted) :
    countInstruction.run machine.onDevice = .done () machine.countInstruction.machine.onDevice := by
  rw [Machine.countInstruction_machine]
  refine (bind_look _ _ machine.onDevice).trans ?_
  have drive : machine.onDevice.settings.drive = machine.settings.drive := rfl
  rw [drive]
  unfold Machine.Counted at counted
  cases settled : machine.settings.drive with
  | host => rfl
  | everyInstructions period =>
    rw [settled] at counted
    have small : machine.sinceTick < max period.toNat 1 := counted
    have size := period.toNat_lt
    have count : machine.onDevice.sinceTick.toNat = machine.sinceTick := by
      change (UInt32.ofNat machine.sinceTick).toNat = _
      rw [UInt32.toNat_ofNat',Nat.mod_eq_of_lt (by omega)]
    have due : max period 1 ≤ UInt32.ofNat (machine.sinceTick + 1) ↔
        max period.toNat 1 ≤ machine.sinceTick + 1 := by
      rw [UInt32.le_iff_toNat_le,max_toNat,UInt32.toNat_ofNat',Nat.mod_eq_of_lt (by omega)]
    refine (bind_look _ _ machine.onDevice).trans ?_
    rw [count,sum_fits (by omega),bind_demand,bind_alter,run_ite]
    by_cases reached : max period.toNat 1 ≤ machine.sinceTick + 1
    · have advanced : (TimerDrive.everyInstructions period).advance machine.sinceTick = (0,true) :=
        if_pos reached
      rw [if_pos (due.mpr reached),advanced]
      rfl
    · have advanced : (TimerDrive.everyInstructions period).advance machine.sinceTick =
          (machine.sinceTick + 1,false) := if_neg reached
      rw [if_neg (mt due.mp reached),advanced]
      rfl

theorem fetch_run : fetch.run machine.onDevice = .ofReply machine.fetch := by
  have read := Memory.readWord_run machine.registers.counter.toNat machine.memory
  refine (bind_look _ _ machine.onDevice).trans ?_
  cases found : machine.memory.readWord machine.registers.counter.toNat with
  | ok word =>
    rw [found] at read
    rw [Machine.fetch_ok found]
    exact bind_done (onMemory_done machine.onDevice read)
  | error fault =>
    rw [found] at read
    rw [Machine.fetch_error found]
    exact bind_refused (onMemory_refused machine.onDevice read)

theorem step_run (counted : machine.Counted) :
    step.run machine.onDevice = .ofReply machine.step := by
  cases machine.step_cases with
  | parked register waiting answer left =>
    have counting := countInstruction_run machine counted
    have settled : machine.onDevice.settings.ticksWhileWaiting = machine.settings.ticksWhileWaiting := rfl
    refine (bind_done (parked_run waiting)).trans ((bind_look _ _ _).trans ?_)
    simp only [Outcome.ofReply,answer,left,settled]
    cases machine.settings.ticksWhileWaiting with
    | false => rfl
    | true => exact bind_done counting
  | unreadable fault running missing answer left =>
    have fetched := fetch_run machine
    rw [Machine.fetch_error missing] at fetched
    refine (bind_done (running_run running)).trans ((bind_look _ _ _).trans ?_)
    simp only [Outcome.ofReply,answer,left]
    exact bind_refused fetched
  | refused word fault running found rejected answer left =>
    have fetched := fetch_run machine
    rw [Machine.fetch_ok found] at fetched
    have executed := execute_run (machine.withRegisters .skip) word
    obtain ⟨fails,stays⟩ := Machine.execute_error (machine.withRegisters .skip) running rejected
    simp only [Outcome.ofReply,fails,stays] at executed
    refine (bind_done (running_run running)).trans ((bind_look _ _ _).trans ?_)
    refine (bind_done fetched).trans ((bind_refused (mending_refused executed)).trans ?_)
    simp only [Outcome.ofReply,answer,left]
    rfl
  | executed word after running found applied answer left =>
    have fetched := fetch_run machine
    rw [Machine.fetch_ok found] at fetched
    have executed := execute_run (machine.withRegisters .skip) word
    obtain ⟨succeeds,leaves⟩ := Machine.execute_ok (machine.withRegisters .skip) running applied
    simp only [Outcome.ofReply,succeeds,leaves] at executed
    have frame := Instruction.apply_frame applied
    have counting := countInstruction_run after
      (counted.of_counting (.unchanged frame.settings frame.sinceTick))
    refine (bind_done (running_run running)).trans ((bind_look _ _ _).trans ?_)
    refine (bind_done fetched).trans ((bind_done (mending_done executed)).trans ?_)
    simp only [Outcome.ofReply,answer,left]
    exact bind_done counting

theorem load_run (program : List UInt8) (fits : program.length + programStart < 2 ^ 64) :
    (load program).run machine.onDevice = .ofReply (machine.load program) := by
  have loaded : (Memory.load program).run machine.onDevice.memory =
      .ofExcept machine.onDevice.memory (fun _ => ()) id (machine.memory.load program) :=
    Memory.load_run program machine.onDevice.memory fits
  simp only [Machine.load]
  cases result : machine.memory.load program with
  | ok memory =>
    rw [result] at loaded
    exact bind_done (onMemory_done _ loaded)
  | error fault =>
    rw [result] at loaded
    exact bind_refused (onMemory_refused _ loaded)

theorem load_crashed (program : List UInt8) (large : ¬program.length + programStart < 2 ^ 64) :
    (load program).run machine.onDevice = .crashed := by
  have crashed : (onMemory (Memory.load program)).run machine.onDevice = .crashed :=
    onMemory_crashed _ (Memory.load_crashed program machine.onDevice.memory large)
  exact bind_crashed crashed

theorem tick_run :
    tick.run machine.onDevice = .done machine.tick.answer machine.tick.machine.onDevice := rfl

/-- A device that has noted a key goes on as the machine that the key has come to. -/
theorem receive_run (key : Key) :
    (resolveWait key.code).run
      {machine.onDevice with keypad := machine.keypad.set key true} =
      .done () (machine.receive key).onDevice := by
  refine (bind_look _ _ _).trans ?_
  cases activity : machine.activity with
  | running =>
    rw [Machine.receive_running activity]
    simp only [Machine.onDevice,activity,Activity.onDevice,run_pure]
  | awaitingKey register =>
    rw [Machine.receive_parked activity]
    simp only [Machine.onDevice,activity,Activity.onDevice]
    exact bind_done (assign_run register key.code _)

theorem press_run (code : UInt8) :
    (press code).run machine.onDevice = .ofReply (machine.press code) := by
  have recorded := Keypad.record_run code true machine.keypad
  simp only [Chip8.Keypad.record] at recorded
  cases named : Key.ofCode? code with
  | some key =>
    obtain ⟨answer,left⟩ := Machine.press_named machine named
    rw [named] at recorded
    have noted := onKeypad_done machine.onDevice recorded
    have resolved := receive_run machine key
    rw [Key.ofCode?_eq_some.mp named] at resolved
    simp only [Outcome.ofReply,answer,left]
    exact (bind_done noted).trans resolved
  | none =>
    rw [named] at recorded
    rw [Machine.press_unnamed machine named]
    exact bind_refused (onKeypad_refused machine.onDevice recorded)

theorem release_run (code : UInt8) :
    (release code).run machine.onDevice = .ofReply (machine.release code) := by
  have recorded := Keypad.record_run code false machine.keypad
  simp only [Chip8.Keypad.record] at recorded
  cases named : Key.ofCode? code with
  | some key =>
    rw [named] at recorded
    rw [Machine.release_named machine named]
    exact onKeypad_done machine.onDevice recorded
  | none =>
    rw [named] at recorded
    rw [Machine.release_unnamed machine named]
    exact onKeypad_refused machine.onDevice recorded

theorem waitForKey_run {ε : Type} (map : ε → Option UInt8) (events : List ε) :
    (waitForKey map events).run machine.onDevice =
      let reply := machine.waitForKey map events
      .done (reply.answer.1.map Key.code,reply.answer.2) reply.machine.onDevice := by
  have awaited := Keypad.await_run map events machine.keypad
  cases activity : machine.activity with
  | running =>
    rw [Machine.waitForKey_running activity]
    exact bind_done (running_run activity)
  | awaitingKey register =>
    refine (bind_done (parked_run activity)).trans ?_
    cases arrived : (Arrival.await map events).key with
    | none =>
      obtain ⟨answer,left⟩ := Machine.waitForKey_dry activity arrived
      simp only [Chip8.Keypad.await,arrived] at awaited
      simp only [answer,left]
      exact bind_done (onKeypad_done machine.onDevice awaited)
    | some key =>
      obtain ⟨answer,left⟩ := Machine.waitForKey_arrived activity arrived
      simp only [Chip8.Keypad.await,arrived] at awaited
      simp only [answer,left]
      refine (bind_done (onKeypad_done machine.onDevice awaited)).trans ?_
      exact bind_done (receive_run machine key)

theorem cancelWait_run :
    cancelWait.run machine.onDevice =
      .done machine.cancelWait.answer machine.cancelWait.machine.onDevice := by
  cases activity : machine.activity with
  | running =>
    rw [Machine.cancelWait_running activity]
    exact bind_done (running_run activity)
  | awaitingKey register =>
    rw [Machine.cancelWait_parked activity]
    exact bind_done (parked_run activity)

theorem answer_run {α : Type} {routine : Routine Device α} {reply : Reply (Except Fault α)}
    (answer : α → Answer) (plain : ∀ value, Outcome.ofAnswer reply.machine.onDevice (answer value) =
      .done (answer value) reply.machine.onDevice)
    (ran : routine.run machine.onDevice = .ofReply reply) :
    (do return answer (← routine)).run machine.onDevice =
      .ofAnswer reply.machine.onDevice (Answer.ofExcept answer reply.answer) := by
  obtain ⟨result,left,log⟩ := reply
  cases result with
  | ok value => exact (bind_done ran).trans (plain value).symm
  | error fault => exact bind_refused ran

theorem serve_run (counted : machine.Counted) (request : Request) (fits : request.Fits) :
    (serve request).run machine.onDevice =
      .ofAnswer (machine.serve request).machine.onDevice (machine.serve request).answer := by
  cases request with
  | load program =>
    have short : program.length < 2 ^ 63 := fits
    have inside : program.length + programStart < 2 ^ 64 := by
      rw [programStart]
      omega
    exact answer_run machine (fun _ => .done) (fun _ => rfl) (load_run machine program inside)
  | fetch => exact answer_run machine .word (fun _ => rfl) (fetch_run machine)
  | step => exact answer_run machine .status (fun _ => rfl) (step_run machine counted)
  | execute word => exact answer_run machine .status (fun _ => rfl) (execute_run machine word)
  | press code => exact answer_run machine (fun _ => .done) (fun _ => rfl) (press_run machine code)
  | release code => exact answer_run machine (fun _ => .done) (fun _ => rfl) (release_run machine code)
  | wait codes =>
    refine (bind_done (waitForKey_run machine id codes)).trans ?_
    simp only [Machine.serve,Reply.map]
    cases (machine.waitForKey id codes).answer.1 with
    | none => rfl
    | some key =>
      simp only [Option.map_some,Key.ofCode?_code]
      rfl
  | cancelWait => exact bind_done (cancelWait_run machine)
  | tick => exact bind_done (tick_run machine)
  | reset entropy => rfl

/-- A request that does not fit crashes the device or is refused like any other. -/
theorem serve_run_or_crashed (counted : machine.Counted) (request : Request) :
    (serve request).run machine.onDevice =
        .ofAnswer (machine.serve request).machine.onDevice (machine.serve request).answer ∨
      (serve request).run machine.onDevice = .crashed := by
  cases request with
  | load program =>
    by_cases inside : program.length + programStart < 2 ^ 64
    · exact .inl (answer_run machine (fun _ => .done) (fun _ => rfl) (load_run machine program inside))
    · exact .inr (bind_crashed (load_crashed machine program inside))
  | _ => exact .inl (serve_run machine counted _ trivial)

theorem fresh_onDevice (settings : Settings) (entropy : ChaCha.Key) :
    (Machine.fresh settings entropy).onDevice = fresh settings entropy := rfl

/-- A device follows the machine through a whole history. -/
theorem after_run (counted : machine.Counted) (history : List Request)
    (fits : ∀ request ∈ history, request.Fits) :
    machine.onDevice.after history = some (machine.after history).onDevice := by
  induction history generalizing machine with
  | nil => rfl
  | cons request history ih =>
    have served := serve_run machine counted request (fits request (by simp))
    have others := ih (machine.serve request).machine (counted.serve request)
      fun other member => fits other (by simp [member])
    rw [after,served]
    cases (machine.serve request).answer <;> exact others

/-- Where a device gets to, the machine gets to. -/
theorem after_eq (counted : machine.Counted) (history : List Request) {device : Device}
    (reached : machine.onDevice.after history = some device) :
    device = (machine.after history).onDevice := by
  induction history generalizing machine with
  | nil => exact (Option.some.inj reached).symm
  | cons request history ih =>
    rcases serve_run_or_crashed machine counted request with served | crashed
    · rw [after,served] at reached
      refine ih (machine.serve request).machine (counted.serve request) ?_
      cases answered : (machine.serve request).answer with
      | _ =>
        rw [answered] at reached
        exact reached
    · rw [after,crashed] at reached
      cases reached

end Device

end Chip8
