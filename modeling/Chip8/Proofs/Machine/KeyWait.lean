import Chip8.Proofs.Instruction.Words
import Chip8.Proofs.Machine.Requests

/-! The wait for a key over whole histories: only one instruction starts it,
requests that bring no key leave it and nearly all of the machine alone, and a
key that comes writes the register that waits and nothing else. -/
namespace Chip8

/-- A request that neither brings a key nor gives up a wait. -/
def Request.Idle : Request → Prop
  | .press code => 15 < code.toNat
  | .wait codes => ∀ code, some code ∈ codes → 15 < code.toNat
  | .cancelWait => False
  | .reset _ => False
  | _ => True

namespace Instruction

theorem decode_awaitKey {word : UInt16} {register : Register} (decoded : decode word = .awaitKey register) :
    word = UInt16.ofNat (0xF00A + 256 * register) :=
  (word_decode word).symm.trans (congrArg Instruction.word decoded)

end Instruction

namespace Machine
variable {machine : Machine}

structure Parks (machine : Machine) (request : Request) (register : Register) : Prop where
  word : request = .execute (UInt16.ofNat (0xF00A + 256 * register)) ∨
    request = .step ∧ machine.memory.readWord machine.registers.counter.toNat =
      .ok (UInt16.ofNat (0xF00A + 256 * register))
  general : (machine.serve request).machine.registers.general = machine.registers.general

/-- What no idle request touches while the machine waits. -/
structure Dormant (before after : Machine) : Prop where
  settings : after.settings = before.settings
  activity : after.activity = before.activity
  general : after.registers.general = before.registers.general
  index : after.registers.index = before.registers.index
  stack : after.stack = before.stack
  screen : after.screen = before.screen
  random : after.random = before.random

theorem Dormant.refl (machine : Machine) : Dormant machine machine := ⟨rfl,rfl,rfl,rfl,rfl,rfl,rfl⟩

theorem Dormant.trans {first second third : Machine} (former : Dormant first second)
    (latter : Dormant second third) : Dormant first third where
  settings := latter.settings.trans former.settings
  activity := latter.activity.trans former.activity
  general := latter.general.trans former.general
  index := latter.index.trans former.index
  stack := latter.stack.trans former.stack
  screen := latter.screen.trans former.screen
  random := latter.random.trans former.random

def CountsWaiting (machine : Machine) : Prop :=
  machine.settings.ticksWhileWaiting = true ∧ machine.settings.drive ≠ .host

structure Idles (machine : Machine) (request : Request) : Prop where
  dormant : Dormant machine (machine.serve request).machine
  answer : (request = .step ∨ ∃ word, request = .execute word) →
    (machine.serve request).answer = .status .awaitingKey
  counter : request ≠ .fetch → (∀ program, request ≠ .load program) →
    (machine.serve request).machine.registers.counter = machine.registers.counter
  memory : (∀ program, request ≠ .load program) →
    (machine.serve request).machine.memory = machine.memory
  timers : request ≠ .tick → (request = .step → ¬machine.CountsWaiting) →
    (machine.serve request).machine.registers.timers = machine.registers.timers ∧
      (machine.serve request).machine.sinceTick = machine.sinceTick
  step : request = .step → ¬machine.CountsWaiting → (machine.serve request).machine = machine
  keypad : (∀ code, request ≠ .release code) →
    (machine.serve request).machine.keypad = machine.keypad

theorem Idles.of_dormant {request : Request} (dormant : Dormant machine (machine.serve request).machine)
    (other : request ≠ .step ∧ ∀ word, request ≠ .execute word)
    (counter : request ≠ .fetch → (∀ program, request ≠ .load program) →
      (machine.serve request).machine.registers.counter = machine.registers.counter)
    (memory : (∀ program, request ≠ .load program) →
      (machine.serve request).machine.memory = machine.memory)
    (timers : request ≠ .tick →
      (machine.serve request).machine.registers.timers = machine.registers.timers ∧
        (machine.serve request).machine.sinceTick = machine.sinceTick)
    (keypad : (∀ code, request ≠ .release code) →
      (machine.serve request).machine.keypad = machine.keypad) : machine.Idles request where
  dormant := dormant
  answer := by
    rintro (stepping | ⟨word,executing⟩)
    · exact absurd stepping other.1
    · exact absurd executing (other.2 word)
  counter := counter
  memory := memory
  timers unticked _ := timers unticked
  step stepping := absurd stepping other.1
  keypad := keypad

theorem Idles.of_eq {request : Request} (stays : (machine.serve request).machine = machine)
    (answer : (request = .step ∨ ∃ word, request = .execute word) →
      (machine.serve request).answer = .status .awaitingKey) : machine.Idles request where
  dormant := stays.symm ▸ Dormant.refl machine
  answer := answer
  counter _ _ := by rw [stays]
  memory _ := by rw [stays]
  timers _ _ := by rw [stays]; exact ⟨rfl,rfl⟩
  step _ _ := stays
  keypad _ := by rw [stays]

theorem step_idles {register : Register} (waiting : machine.activity = .awaitingKey register) :
    machine.Idles .step := by
  obtain ⟨answer,left⟩ := step_parked waiting
  have stays (uncounted : ¬machine.CountsWaiting) : machine.step.machine = machine := by
    rw [left]
    split
    · rename_i counting
      have hosted : machine.settings.drive = .host :=
        Classical.byContradiction fun driven => uncounted ⟨counting,driven⟩
      exact countInstruction_host hosted
    · rfl
  have frame : Dormant machine machine.step.machine ∧
      machine.step.machine.registers.counter = machine.registers.counter ∧
      machine.step.machine.memory = machine.memory ∧ machine.step.machine.keypad = machine.keypad := by
    rw [left]
    split
    · rw [countInstruction_machine]
      cases (machine.settings.drive.advance machine.sinceTick).2 with
      | false => exact ⟨⟨rfl,rfl,rfl,rfl,rfl,rfl,rfl⟩,rfl,rfl,rfl⟩
      | true => exact ⟨⟨rfl,rfl,rfl,rfl,rfl,rfl,rfl⟩,rfl,rfl,rfl⟩
    · exact ⟨.refl machine,rfl,rfl,rfl⟩
  obtain ⟨dormant,counter,memory,keypad⟩ := frame
  refine ⟨dormant,?_,?_,?_,?_,?_,?_⟩
  · exact fun _ => congrArg (Answer.ofExcept .status) answer
  · exact fun _ _ => counter
  · exact fun _ => memory
  · intro _ uncounted
    have same := stays (uncounted rfl)
    exact ⟨congrArg (·.registers.timers) same,congrArg (·.sinceTick) same⟩
  · exact fun _ => stays
  · exact fun _ => keypad

theorem load_idles (machine : Machine) (program : List UInt8) : machine.Idles (.load program) := by
  have frame : Dormant machine (machine.load program).machine ∧
      (machine.load program).machine.registers.timers = machine.registers.timers ∧
      (machine.load program).machine.sinceTick = machine.sinceTick ∧
      (machine.load program).machine.keypad = machine.keypad := by
    unfold Machine.load
    split <;> exact ⟨⟨rfl,rfl,rfl,rfl,rfl,rfl,rfl⟩,rfl,rfl,rfl⟩
  obtain ⟨dormant,timers,sinceTick,keypad⟩ := frame
  refine .of_dormant dormant ⟨nofun,nofun⟩ ?_ ?_ (fun _ => ⟨timers,sinceTick⟩) (fun _ => keypad)
  · exact fun _ other => absurd rfl (other program)
  · exact fun other => absurd rfl (other program)

theorem fetch_idles (machine : Machine) : machine.Idles .fetch := by
  have frame : Dormant machine machine.fetch.machine ∧ machine.fetch.machine.memory = machine.memory ∧
      machine.fetch.machine.registers.timers = machine.registers.timers ∧
      machine.fetch.machine.sinceTick = machine.sinceTick ∧
      machine.fetch.machine.keypad = machine.keypad := by
    unfold Machine.fetch
    split <;> exact ⟨⟨rfl,rfl,rfl,rfl,rfl,rfl,rfl⟩,rfl,rfl,rfl,rfl⟩
  obtain ⟨dormant,memory,timers,sinceTick,keypad⟩ := frame
  refine .of_dormant dormant ⟨nofun,nofun⟩ ?_ (fun _ => memory) (fun _ => ⟨timers,sinceTick⟩)
    (fun _ => keypad)
  exact fun other => absurd rfl other

theorem release_idles (machine : Machine) (code : UInt8) : machine.Idles (.release code) := by
  have frame : Dormant machine (machine.release code).machine ∧
      (machine.release code).machine.registers = machine.registers ∧
      (machine.release code).machine.memory = machine.memory ∧
      (machine.release code).machine.sinceTick = machine.sinceTick := by
    unfold Machine.release
    split <;> exact ⟨⟨rfl,rfl,rfl,rfl,rfl,rfl,rfl⟩,rfl,rfl,rfl⟩
  obtain ⟨dormant,registers,memory,sinceTick⟩ := frame
  refine .of_dormant dormant ⟨nofun,nofun⟩ (fun _ _ => congrArg (·.counter) registers) (fun _ => memory)
    (fun _ => ⟨congrArg (·.timers) registers,sinceTick⟩) ?_
  exact fun other => absurd rfl (other code)

theorem tick_idles (machine : Machine) : machine.Idles .tick := by
  refine .of_dormant ⟨rfl,rfl,rfl,rfl,rfl,rfl,rfl⟩ ⟨nofun,nofun⟩ (fun _ _ => rfl) (fun _ => rfl) ?_
    (fun _ => rfl)
  exact fun other => absurd rfl other

theorem idle_idles {register : Register} (waiting : machine.activity = .awaitingKey register)
    {request : Request} (idle : request.Idle) : machine.Idles request := by
  cases request with
  | load program => exact load_idles machine program
  | fetch => exact fetch_idles machine
  | step => exact step_idles waiting
  | execute word =>
    obtain ⟨answer,left⟩ := execute_parked waiting word
    exact .of_eq left fun _ => congrArg (Answer.ofExcept .status) answer
  | press code =>
    have unnamed := Key.ofCode?_eq_none.mpr idle
    refine .of_eq (congrArg Reply.machine (press_unnamed machine unnamed)) ?_
    rintro (wrong | ⟨word,wrong⟩) <;> cases wrong
  | release code => exact release_idles machine code
  | wait codes =>
    have dry : (Arrival.await id codes).key = none :=
      Arrival.key_eq_none.mpr fun event member code same => idle code (same ▸ member)
    refine .of_eq (waitForKey_dry waiting dry).2 ?_
    rintro (wrong | ⟨word,wrong⟩) <;> cases wrong
  | cancelWait => exact absurd idle id
  | tick => exact tick_idles machine
  | reset entropy => exact absurd idle id

theorem idle_after {register : Register} (waiting : machine.activity = .awaitingKey register)
    (history : List Request) (idle : ∀ request ∈ history, request.Idle) :
    Dormant machine (machine.after history) := by
  induction history generalizing machine with
  | nil => exact .refl machine
  | cons request history ih =>
    have first := (idle_idles waiting (idle request (by simp))).dormant
    exact first.trans (ih (first.activity.trans waiting) fun other member => idle other (by simp [member]))

theorem execute_parks {register : Register} {word : UInt16} (running : machine.activity = .running)
    (parked : (machine.execute word).machine.activity = .awaitingKey register) :
    word = UInt16.ofNat (0xF00A + 256 * register) ∧
      (machine.execute word).machine = {machine with activity := .awaitingKey register} := by
  cases machine.execute_cases word with
  | parked other waiting answer left =>
    rw [running] at waiting
    cases waiting
  | refused fault running rejected answer left =>
    rw [left,running] at parked
    cases parked
  | executed after running applied answer left =>
    rw [left] at parked ⊢
    rcases Instruction.apply_activity applied with same | ⟨x,decoded,parking⟩
    · rw [same,running] at parked
      cases parked
    · rw [parking] at parked
      cases parked
      exact ⟨Instruction.decode_awaitKey decoded,parking⟩

theorem step_parks {register : Register} (running : machine.activity = .running)
    (parked : machine.step.machine.activity = .awaitingKey register) :
    machine.memory.readWord machine.registers.counter.toNat =
        .ok (UInt16.ofNat (0xF00A + 256 * register)) ∧
      machine.step.machine.registers.general = machine.registers.general := by
  cases machine.step_cases with
  | parked other waiting answer left =>
    rw [running] at waiting
    cases waiting
  | unreadable fault running missing answer left =>
    rw [left,running] at parked
    cases parked
  | refused word fault running found rejected answer left =>
    rw [left,running] at parked
    cases parked
  | executed word after running found applied answer left =>
    rw [left,countInstruction_machine] at parked ⊢
    rcases Instruction.apply_activity applied with same | ⟨x,decoded,parking⟩
    · have still : after.activity = .running := same.trans running
      rw [still] at parked
      cases parked
    · have place : x = register := by
        rw [parking] at parked
        cases parked
        rfl
      rw [found,Instruction.decode_awaitKey decoded,place,parking]
      refine ⟨rfl,?_⟩
      split <;> rfl

theorem receive_activity (running : machine.activity = .running) (key : Key) :
    (machine.receive key).activity = .running := by
  rw [receive_running running]
  exact running

theorem serve_parks {request : Request} {register : Register} (running : machine.activity = .running)
    (parked : (machine.serve request).machine.activity = .awaitingKey register) :
    machine.Parks request register := by
  have stays (same : (machine.serve request).machine.activity = .running) :
      machine.Parks request register := by
    rw [same] at parked
    cases parked
  cases request with
  | load program => exact stays ((load_idles machine program).dormant.activity.trans running)
  | fetch => exact stays ((fetch_idles machine).dormant.activity.trans running)
  | step =>
    obtain ⟨found,general⟩ := step_parks running parked
    exact ⟨.inr ⟨rfl,found⟩,general⟩
  | execute word =>
    obtain ⟨same,left⟩ := execute_parks running parked
    exact ⟨.inl (congrArg _ same),congrArg (·.registers.general) left⟩
  | press code =>
    cases named : Key.ofCode? code with
    | some key =>
      have left : (machine.serve (.press code)).machine = machine.receive key := (press_named machine named).2
      exact stays ((congrArg (·.activity) left).trans (receive_activity running key))
    | none =>
      have left : (machine.serve (.press code)).machine = machine :=
        congrArg Reply.machine (press_unnamed machine named)
      exact stays ((congrArg (·.activity) left).trans running)
  | release code => exact stays ((release_idles machine code).dormant.activity.trans running)
  | wait codes =>
    have left : (machine.serve (.wait codes)).machine = machine :=
      congrArg Reply.machine (waitForKey_running running)
    exact stays ((congrArg (·.activity) left).trans running)
  | cancelWait =>
    have left : (machine.serve .cancelWait).machine = machine :=
      congrArg Reply.machine (cancelWait_running running)
    exact stays ((congrArg (·.activity) left).trans running)
  | tick => exact stays running
  | reset entropy => exact stays rfl

theorem execute_status {word : UInt16} {status : Status}
    (accepted : (machine.execute word).answer = .ok status) :
    status = (machine.execute word).machine.status := by
  cases machine.execute_cases word with
  | parked register waiting answer left =>
    rw [left,status_awaitingKey waiting]
    exact (Except.ok.inj (answer.symm.trans accepted)).symm
  | refused fault running rejected answer left =>
    rw [answer] at accepted
    cases accepted
  | executed after running applied answer left =>
    rw [left]
    exact (Except.ok.inj (answer.symm.trans accepted)).symm

theorem countInstruction_status (machine : Machine) :
    machine.countInstruction.machine.status = machine.status := by
  rw [countInstruction_machine]
  rfl

theorem step_status {status : Status} (accepted : machine.step.answer = .ok status) :
    status = machine.step.machine.status := by
  cases machine.step_cases with
  | parked register waiting answer left =>
    have same : machine.step.machine.status = machine.status := by
      rw [left]
      split
      · exact countInstruction_status machine
      · rfl
    rw [same,status_awaitingKey waiting]
    exact (Except.ok.inj (answer.symm.trans accepted)).symm
  | unreadable fault running missing answer left =>
    rw [answer] at accepted
    cases accepted
  | refused word fault running found rejected answer left =>
    rw [answer] at accepted
    cases accepted
  | executed word after running found applied answer left =>
    rw [left,countInstruction_status]
    exact (Except.ok.inj (answer.symm.trans accepted)).symm

/-- A machine that a step leaves waiting does not fail in the next one. -/
theorem step_waits (answer : machine.step.answer = .ok .awaitingKey) :
    machine.step.machine.step.answer = .ok .awaitingKey := by
  have status := step_status answer
  cases activity : machine.step.machine.activity with
  | running =>
    rw [status_running activity] at status
    cases status
  | awaitingKey register => exact (step_parked activity).1

structure Resolves (machine : Machine) (register : Register) : Prop where
  press : ∀ key : Key, (machine.press key.code).answer = .ok () ∧
    (machine.press key.code).machine = {machine with
      keypad := machine.keypad.set key true
      registers := machine.registers.set register key.code
      activity := .running}
  wait : ∀ (ε : Type) (map : ε → Option UInt8) (events remaining : List ε) (key : Key),
    (machine.waitForKey map events).answer = (some key,remaining) →
      (machine.waitForKey map events).machine = {machine with
        keypad := machine.keypad.set key true
        registers := machine.registers.set register key.code
        activity := .running}
  cancelWait : machine.cancelWait.answer = true ∧
    machine.cancelWait.machine = {machine with activity := .running}

theorem parked_resolves {register : Register} (waiting : machine.activity = .awaitingKey register) :
    machine.Resolves register := by
  refine ⟨?_,?_,?_⟩
  · intro key
    obtain ⟨answer,left⟩ := press_named machine (Key.ofCode?_code key)
    exact ⟨answer,left.trans (receive_parked waiting key)⟩
  · intro ε map events remaining key answered
    cases arrived : (Arrival.await map events).key with
    | none =>
      rw [(waitForKey_dry waiting arrived).1] at answered
      cases answered
    | some other =>
      obtain ⟨answer,left⟩ := waitForKey_arrived waiting arrived
      rw [answer] at answered
      cases answered
      exact left.trans (receive_parked waiting key)
  · rw [cancelWait_parked waiting]
    exact ⟨rfl,rfl⟩

/-- A machine starts to wait for a key by one instruction alone and says so. Whatever is asked of
it then, it waits on with its registers, its stack, its screen and its random source as they are,
until a key comes or the wait is given up. -/
theorem key_wait_protocol (machine : Machine) :
    (∀ request register, machine.activity = .running →
      (machine.serve request).machine.activity = .awaitingKey register →
        machine.Parks request register) ∧
    (∀ status, machine.step.answer = .ok status → status = machine.step.machine.status) ∧
    (∀ word status, (machine.execute word).answer = .ok status →
      status = (machine.execute word).machine.status) ∧
    ∀ register history, machine.activity = .awaitingKey register →
      (∀ request ∈ history, request.Idle) →
        (machine.after history).activity = .awaitingKey register ∧
        Dormant machine (machine.after history) ∧
        (∀ past request rest, history = past ++ request :: rest → (machine.after past).Idles request) ∧
        (machine.after history).Resolves register := by
  refine ⟨fun _ _ => serve_parks,fun _ => step_status,fun _ _ => execute_status,?_⟩
  intro register history waiting idle
  have dormant := idle_after waiting history idle
  have waits : (machine.after history).activity = .awaitingKey register := dormant.activity.trans waiting
  refine ⟨waits,dormant,?_,parked_resolves waits⟩
  intro past request rest split
  have before := idle_after waiting past fun other member => idle other (by simp [split,member])
  exact idle_idles (before.activity.trans waiting) (idle request (by simp [split]))

/-- A key that is none and a refused word come before the key. -/
theorem key_wait_protocol_third :
    let machine := (Machine.fresh {} (Vector.replicate 8 0)).after [.load [0xF3,0x0A],.step]
    let history := [.press 0x10,.execute 0x00E0,.fetch]
    (machine.after history).activity = .awaitingKey 3 ∧
      (((machine.after history).press 0x7).machine.registers.get 3) = 0x7 := by
  intro machine history
  obtain ⟨_,_,_,waits⟩ := key_wait_protocol machine
  have idle : ∀ request ∈ history, request.Idle := by
    have outside : 15 < (0x10 : UInt8).toNat := by decide
    refine List.forall_mem_cons.mpr ⟨outside,List.forall_mem_cons.mpr ⟨trivial,?_⟩⟩
    exact List.forall_mem_cons.mpr ⟨trivial,nofun⟩
  obtain ⟨waiting,_,_,resolves⟩ := waits 3 history (by decide +kernel) idle
  refine ⟨waiting,?_⟩
  rw [show (0x7 : UInt8) = Key.code 7 from rfl,(resolves.press 7).2]
  simp

end Machine

end Chip8
