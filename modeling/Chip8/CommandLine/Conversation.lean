import Chip8.CommandLine.Terminal
import Chip8.Machine.Cycle
import Chip8.Machine.KeyWait

/-! A machine and a person taking turns. The machine runs until it waits for a
key, then one line is read, and the first character of it that stands for a key
is that key, pressed and let go. -/
namespace Chip8.CommandLine

inductive Ending where
  | cyclesUsed
  | inputEnded
  | undecodableLine
  | keyRefused (fault : Fault)
  | fault (fault : Fault)
deriving DecidableEq

def prompt : String := "press a key (1234 qwer asdf zxcv) and hit enter:"

def typeLine (machine : Machine) (line : String) : Except Fault Machine :=
  let served := machine.waitForKey Key.ofChar? line.toList
  match served.answer.1 with
  | none => .ok served.machine
  | some key =>
    let released := served.machine.release key.code
    released.answer.map fun () => released.machine

/-- Runs a machine for at most the given number of cycles. A cycle that waits for a key counts and
asks for one line. -/
def converse {m : Type → Type} [Monad m] (terminal : Terminal m) :
    Nat → Machine → m (Machine × Ending)
  | 0, machine => pure (machine,.cyclesUsed)
  | cycles + 1, machine =>
    let stepped := machine.step
    match stepped.answer with
    | .ok .running => converse terminal cycles stepped.machine
    | .error fault => pure (stepped.machine,.fault fault)
    | .ok .awaitingKey => do
      terminal.print prompt
      match ← terminal.readLine with
      | some (.text line) =>
        match typeLine stepped.machine line with
        | .ok machine => converse terminal cycles machine
        | .error fault => pure (stepped.machine,.keyRefused fault)
      | some .undecodable => pure (stepped.machine,.undecodableLine)
      | none => pure (stepped.machine,.inputEnded)

end Chip8.CommandLine
