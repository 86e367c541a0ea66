import Chip8.Machine.Request
import Chip8.Proofs.Machine.Cycle
import Chip8.Proofs.Machine.Keys

/-! What a request makes of a machine, told by the word that it executes. A
request that executes none leaves all but a few parts alone, and no history
takes the count of instructions to the period. -/
namespace Chip8

def Request.Timeless : Request → Prop
  | .load _ | .fetch | .press _ | .release _ | .wait _ | .cancelWait => True
  | .step | .execute _ | .tick | .reset _ => False

namespace Machine
variable {machine : Machine} {request : Request}

/-- A request executes a word that it brings along, or the next one of the program. -/
structure Executes (machine : Machine) (request : Request) (word : UInt16) : Prop where
  running : machine.activity = .running
  taken : request = .execute word ∨
    request = .step ∧ machine.memory.readWord machine.registers.counter.toNat = .ok word
  accepted : ∃ status, (machine.serve request).answer = .status status

theorem Executes.unique {word other : UInt16} (first : machine.Executes request word)
    (second : machine.Executes request other) : word = other := by
  rcases first.taken with offered | ⟨stepping,found⟩
  · rcases second.taken with again | ⟨stepping,_⟩
    · exact Request.execute.inj (offered.symm.trans again)
    · cases offered.symm.trans stepping
  · rcases second.taken with offered | ⟨_,again⟩
    · cases offered.symm.trans stepping
    · exact Except.ok.inj (found.symm.trans again)

def Idle (machine : Machine) (request : Request) : Prop := ∀ word, ¬machine.Executes request word

theorem Idle.of_fault {fault : Fault} (refused : (machine.serve request).answer = .fault fault) :
    machine.Idle request := by
  rintro word ⟨_,_,status,accepted⟩
  cases refused.symm.trans accepted

theorem Idle.of_parked {register : Register} (waiting : machine.activity = .awaitingKey register)
    (request : Request) : machine.Idle request := by
  rintro word ⟨running,_,_⟩
  cases running.symm.trans waiting

theorem Idle.of_other (unstepped : request ≠ .step) (unoffered : ∀ word, request ≠ .execute word) :
    machine.Idle request := by
  rintro word ⟨_,offered | ⟨stepping,_⟩,_⟩
  · exact unoffered word offered
  · exact unstepped stepping

def behindWord (machine : Machine) : Request → Machine
  | .step => machine.withRegisters .skip
  | _ => machine

@[simp] theorem behindWord_settings (machine : Machine) (request : Request) :
    (machine.behindWord request).settings = machine.settings := by
  cases request <;> rfl

@[simp] theorem behindWord_sinceTick (machine : Machine) (request : Request) :
    (machine.behindWord request).sinceTick = machine.sinceTick := by
  cases request <;> rfl

@[simp] theorem behindWord_stack (machine : Machine) (request : Request) :
    (machine.behindWord request).stack = machine.stack := by
  cases request <;> rfl

@[simp] theorem behindWord_timers (machine : Machine) (request : Request) :
    (machine.behindWord request).registers.timers = machine.registers.timers := by
  cases request <;> rfl

@[simp] theorem behindWord_get (machine : Machine) (request : Request) (x : Register) :
    (machine.behindWord request).registers.get x = machine.registers.get x := by
  cases request <;> rfl

def concluded (after : Machine) : Request → Machine
  | .step => after.countInstruction.machine
  | _ => after

@[simp] theorem concluded_stack (after : Machine) (request : Request) :
    (after.concluded request).stack = after.stack := by
  cases request with
  | step => exact countInstruction_stack after
  | _ => rfl

@[simp] theorem concluded_counter (after : Machine) (request : Request) :
    (after.concluded request).registers.counter = after.registers.counter := by
  cases request with
  | step => exact countInstruction_counter after
  | _ => rfl

structure Aside (before after : Machine) : Prop where
  settings : after.settings = before.settings
  index : after.registers.index = before.registers.index
  timers : after.registers.timers = before.registers.timers
  stack : after.stack = before.stack
  screen : after.screen = before.screen
  sinceTick : after.sinceTick = before.sinceTick
  random : after.random = before.random

theorem Aside.refl (machine : Machine) : Aside machine machine := ⟨rfl,rfl,rfl,rfl,rfl,rfl,rfl⟩

theorem Aside.of_eq {after : Machine} (same : after = machine) : Aside machine after :=
  same ▸ .refl machine

theorem Aside.receive (machine : Machine) (key : Key) : Aside machine (machine.receive key) := by
  cases activity : machine.activity with
  | running =>
    rw [receive_running activity]
    exact ⟨rfl,rfl,rfl,rfl,rfl,rfl,rfl⟩
  | awaitingKey register =>
    rw [receive_parked activity]
    exact ⟨rfl,rfl,rfl,rfl,rfl,rfl,rfl⟩

inductive ServeCase (machine : Machine) (request : Request) : Prop where
  | executed (word : UInt16) (after : Machine) (executes : machine.Executes request word)
      (applied : (Instruction.decode word).apply (machine.behindWord request) = .ok after)
      (left : (machine.serve request).machine = after.concluded request)
  | parked (asked : request = .step) (register : Register)
      (waiting : machine.activity = .awaitingKey register)
      (left : (machine.serve request).machine =
        if machine.settings.ticksWhileWaiting then machine.countInstruction.machine else machine)
  | ticked (asked : request = .tick)
  | restarted (entropy : ChaCha.Key) (asked : request = .reset entropy)
  | aside (idle : machine.Idle request) (kept : Aside machine (machine.serve request).machine)

theorem execute_serves (machine : Machine) (word : UInt16) : ServeCase machine (.execute word) := by
  cases machine.execute_cases word with
  | parked register waiting answer left => exact .aside (.of_parked waiting _) (.of_eq left)
  | refused fault running rejected answer left =>
    exact .aside (.of_fault (congrArg (Answer.ofExcept .status) answer)) (.of_eq left)
  | executed after running applied answer left =>
    have accepted := congrArg (Answer.ofExcept .status) answer
    exact .executed word after ⟨running,.inl rfl,⟨_,accepted⟩⟩ applied left

theorem step_serves (machine : Machine) : ServeCase machine .step := by
  cases machine.step_cases with
  | parked register waiting answer left => exact .parked rfl register waiting left
  | unreadable fault running missing answer left =>
    exact .aside (.of_fault (congrArg (Answer.ofExcept .status) answer)) (.of_eq left)
  | refused word fault running found rejected answer left =>
    exact .aside (.of_fault (congrArg (Answer.ofExcept .status) answer)) (.of_eq left)
  | executed word after running found applied answer left =>
    have accepted := congrArg (Answer.ofExcept .status) answer
    exact .executed word after ⟨running,.inr ⟨rfl,found⟩,⟨_,accepted⟩⟩ applied left

theorem Aside.received {after : Machine}
    (received : after = machine ∨ ∃ key, after = machine.receive key) : Aside machine after := by
  rcases received with same | ⟨key,same⟩
  · exact .of_eq same
  · rw [same]
    exact .receive machine key

theorem Aside.of_timeless (timeless : request.Timeless) (machine : Machine) :
    Aside machine (machine.serve request).machine := by
  cases request with
  | load program =>
    simp only [serve,Reply.map,load]
    split <;> exact ⟨rfl,rfl,rfl,rfl,rfl,rfl,rfl⟩
  | fetch =>
    simp only [serve,Reply.map,fetch]
    split <;> exact ⟨rfl,rfl,rfl,rfl,rfl,rfl,rfl⟩
  | press code => exact .received (press_received machine code)
  | release code =>
    simp only [serve,Reply.map,release]
    split <;> exact ⟨rfl,rfl,rfl,rfl,rfl,rfl,rfl⟩
  | wait codes => exact .received (waitForKey_received machine id codes)
  | cancelWait =>
    simp only [serve,Reply.map,cancelWait]
    split <;> exact ⟨rfl,rfl,rfl,rfl,rfl,rfl,rfl⟩
  | step | execute word | tick | reset entropy => exact timeless.elim

theorem serve_cases (machine : Machine) (request : Request) : ServeCase machine request := by
  cases request with
  | step => exact step_serves machine
  | execute word => exact execute_serves machine word
  | tick => exact .ticked rfl
  | reset entropy => exact .restarted entropy rfl
  | _ => exact .aside (.of_other (by simp) (by simp)) (.of_timeless (by trivial) machine)

theorem Executes.applied {word : UInt16} (executes : machine.Executes request word) :
    ∃ after, (Instruction.decode word).apply (machine.behindWord request) = .ok after ∧
      (machine.serve request).machine = after.concluded request := by
  cases machine.serve_cases request with
  | executed other after executing applied left =>
    rw [executes.unique executing]
    exact ⟨after,applied,left⟩
  | parked asked register waiting left => cases executes.running.symm.trans waiting
  | ticked asked | restarted entropy asked =>
    have idle : machine.Idle request := .of_other (by simp [asked]) (by simp [asked])
    exact absurd executes (idle word)
  | aside idle kept => exact absurd executes (idle word)

theorem after_singleton (machine : Machine) (history : List Request) (request : Request) :
    machine.after (history ++ [request]) = ((machine.after history).serve request).machine := by
  rw [after_append]
  rfl

theorem Counting.concluded {after : Machine} (settings : after.settings = machine.settings)
    (sinceTick : after.sinceTick = machine.sinceTick) (request : Request) :
    machine.Counting (after.concluded request) := by
  cases request with
  | step => exact .countInstruction settings sinceTick
  | _ => exact .unchanged settings sinceTick

theorem serve_counting (machine : Machine) (request : Request) :
    machine.Counting (machine.serve request).machine := by
  cases machine.serve_cases request with
  | executed word after executes applied left =>
    have frame := Instruction.apply_frame applied
    rw [left]
    exact .concluded (frame.settings.trans (behindWord_settings machine request))
      (frame.sinceTick.trans (behindWord_sinceTick machine request)) request
  | parked asked register waiting left =>
    rw [left]
    split
    · exact .countInstruction rfl rfl
    · exact .unchanged rfl rfl
  | ticked asked =>
    subst asked
    exact .unchanged rfl rfl
  | restarted entropy asked =>
    subst asked
    exact ⟨rfl,.inr (.inr rfl)⟩
  | aside idle kept => exact .unchanged kept.settings kept.sinceTick

theorem after_settings (machine : Machine) (history : List Request) :
    (machine.after history).settings = machine.settings := by
  induction history generalizing machine with
  | nil => rfl
  | cons request history ih => exact (ih _).trans (serve_counting machine request).settings

theorem Counted.serve (counted : machine.Counted) (request : Request) :
    (machine.serve request).machine.Counted :=
  counted.of_counting (serve_counting machine request)

theorem Counted.after (counted : machine.Counted) (history : List Request) :
    (machine.after history).Counted := by
  induction history generalizing machine with
  | nil => exact counted
  | cons request history ih => exact ih (counted.serve request)

end Machine

end Chip8
