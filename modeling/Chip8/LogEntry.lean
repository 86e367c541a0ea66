import Chip8.Keypad
import Chip8.Memory
import Chip8.Registers

/-! What the machine tells while it works. An entry holds the facts, and its
level and wording follow from its kind. -/
namespace Chip8
open Text

inductive LogLevel where
  | trace
  | debug
  | warn
deriving DecidableEq

def LogLevel.name : LogLevel → String
  | .trace => "TRACE"
  | .debug => "DEBUG"
  | .warn => "WARN"

inductive LogEntry where
  | programLoaded (length : Nat)
  | executing (address word : UInt16)
  | unknownWord (word : UInt16)
  | refusedWord (word : UInt16) (register : Register)
  | waitStarted (register : Register)
  | waitResolved (key : Key) (register : Register)
  | waitCancelled
  | eventUnmapped
  | eventOutsidePad (code : UInt8)
  | soundExpired
  | machineStopped (fault : Fault)
deriving DecidableEq

namespace LogEntry

def level : LogEntry → LogLevel
  | .executing _ _ => .trace
  | .eventUnmapped => .trace
  | .machineStopped _ => .warn
  | _ => .debug

def message : LogEntry → String
  | .programLoaded length => s!"loaded {length} byte program at 0x" ++ lowerHex 3 programStart
  | .executing address word => "0x" ++ lowerHex 3 address.toNat ++ ": " ++ lowerHex 4 word.toNat
  | .unknownWord word => "ignoring unknown opcode 0x" ++ lowerHex 4 word.toNat
  | .refusedWord word register =>
    "not executing 0x" ++ lowerHex 4 word.toNat ++ ": still waiting for a key into V" ++
      upperHex 1 register
  | .waitStarted register => "waiting for a key press into V" ++ upperHex 1 register
  | .waitResolved key register =>
    "key 0x" ++ lowerHex 1 key ++ " resolved wait into V" ++ upperHex 1 register
  | .waitCancelled => "key wait cancelled"
  | .eventUnmapped => "unmapped key event while waiting"
  | .eventOutsidePad code => "key mapping produced 0x" ++ lowerHex 2 code.toNat ++ ", ignoring"
  | .soundExpired => "sound timer expired"
  | .machineStopped fault => "machine stopped: " ++ fault.message

/-- An entry as it is printed, without the time and the target that a logger adds. -/
def line (entry : LogEntry) : String := entry.level.name ++ " " ++ entry.message

end LogEntry

end Chip8
