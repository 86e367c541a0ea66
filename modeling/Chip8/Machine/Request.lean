import Chip8.Machine.Cycle
import Chip8.Machine.KeyWait

/-! All that a host can ask of a machine, as data. A history of a machine is
then a list of requests, and each request has one reply. -/
namespace Chip8

/-- The events of a wait are given by what they are mapped to. -/
inductive Request where
  | load (program : List UInt8)
  | fetch
  | step
  | execute (word : UInt16)
  | press (code : UInt8)
  | release (code : UInt8)
  | wait (codes : List (Option UInt8))
  | cancelWait
  | tick
  | reset (entropy : ChaCha.Key)
deriving DecidableEq

inductive Answer where
  | done
  | fault (fault : Fault)
  | word (word : UInt16)
  | status (status : Status)
  | flag (flag : Bool)
  | arrival (key : Option Key) (remaining : Nat)
deriving DecidableEq

def Answer.ofExcept {α : Type} (answer : α → Answer) : Except Fault α → Answer
  | .ok value => answer value
  | .error reason => .fault reason

def Reply.map {α β : Type} (change : α → β) (reply : Reply α) : Reply β :=
  {reply with answer := change reply.answer}

namespace Machine

def serve (machine : Machine) : Request → Reply Answer
  | .load program => (machine.load program).map (.ofExcept fun _ => .done)
  | .fetch => machine.fetch.map (.ofExcept .word)
  | .step => machine.step.map (.ofExcept .status)
  | .execute word => (machine.execute word).map (.ofExcept .status)
  | .press code => (machine.press code).map (.ofExcept fun _ => .done)
  | .release code => (machine.release code).map (.ofExcept fun _ => .done)
  | .wait codes =>
    (machine.waitForKey id codes).map fun (key,remaining) => .arrival key remaining.length
  | .cancelWait => machine.cancelWait.map .flag
  | .tick => machine.tick.map .flag
  | .reset entropy => ⟨.done,machine.reset entropy,[]⟩

def after (machine : Machine) (history : List Request) : Machine :=
  history.foldl (fun machine request => (machine.serve request).machine) machine

theorem after_append (machine : Machine) (first second : List Request) :
    machine.after (first ++ second) = (machine.after first).after second :=
  List.foldl_append

def replies (machine : Machine) : List Request → List (Reply Answer)
  | [] => []
  | request :: history =>
    let reply := machine.serve request
    reply :: reply.machine.replies history

end Machine

end Chip8
