import Chip8.CallStack
import Chip8.LogEntry
import Chip8.Random
import Chip8.Screen

/-! The state of a machine. A machine either runs or is parked on an
instruction that waits for a key, and remembers which register the key is for. -/
namespace Chip8

/-- What is chosen when a machine is built. Without a seed the random source starts from outside
entropy, and `ticksWhileWaiting` says whether a step spent waiting for a key counts towards a tick. -/
structure Settings where
  drive : TimerDrive := .host
  ticksWhileWaiting : Bool := true
  seed : Option UInt64 := none
deriving DecidableEq

def Settings.usualPeriod : UInt32 := 8

inductive Activity where
  | running
  | awaitingKey (register : Register)
deriving DecidableEq

inductive Status where
  | running
  | awaitingKey
deriving DecidableEq

def Activity.status : Activity → Status
  | .running => .running
  | .awaitingKey _ => .awaitingKey

/-- `sinceTick` counts the instructions since the machine last ticked the timers on its own. -/
structure Machine where
  settings : Settings
  registers : Registers
  stack : CallStack
  memory : Memory
  screen : Screen
  keypad : Keypad
  activity : Activity
  sinceTick : Nat
  random : RandomSource
deriving DecidableEq

structure Reply (α : Type) where
  answer : α
  machine : Machine
  log : List LogEntry

namespace Machine

def fresh (settings : Settings) (entropy : ChaCha.Key) : Machine where
  settings := settings
  registers := .zero
  stack := .empty
  memory := .initial
  screen := .blank
  keypad := .released
  activity := .running
  sinceTick := 0
  random := match settings.seed with
    | some seed => .ofSeed seed
    | none => .ofKey entropy

def reset (machine : Machine) (entropy : ChaCha.Key) : Machine :=
  fresh machine.settings entropy

def status (machine : Machine) : Status := machine.activity.status

def soundActive (machine : Machine) : Bool := 0 < machine.registers.timers.sound

def withRegisters (machine : Machine) (change : Registers → Registers) : Machine :=
  {machine with registers := change machine.registers}

def load (machine : Machine) (program : List UInt8) : Reply (Except Fault Unit) :=
  match machine.memory.load program with
  | .ok memory =>
    ⟨.ok (),{machine with memory,registers := machine.registers.jump (UInt16.ofNat programStart)},
      [.programLoaded program.length]⟩
  | .error fault => ⟨.error fault,machine,[]⟩

end Machine

end Chip8
