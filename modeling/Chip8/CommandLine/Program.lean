import Chip8.CommandLine.Conversation
import Chip8.CommandLine.CycleCount

/-! The program as it is called: a file to run and, if wanted, a number of
cycles. It ends with a dump of the registers, except where it could not start
or where its input is not text. -/
namespace Chip8.CommandLine
open Text

def usage : String := "usage: c8vm <file> [cycles]"

def usualCycles : Nat := 10000

def settings : Settings := {drive := .everyInstructions Settings.usualPeriod}

def faultDiagnostic : Fault → String
  | .programTooLarge length longest start =>
    s!"ProgramTooLarge \x7b len: {length}, max: {longest}, load_addr: {start.toNat} \x7d"
  | .addressOutOfRange address => s!"AddressOutOfRange \x7b address: {address} \x7d"
  | .stackOverflow depth => s!"StackOverflow \x7b depth: {depth} \x7d"
  | .stackUnderflow => "StackUnderflow"
  | .invalidKey code => s!"InvalidKey({code.toNat})"

def inputDiagnostic : String :=
  "Error \x7b kind: InvalidData, message: \"stream did not contain valid UTF-8\" \x7d"

def dump (machine : Machine) : List String :=
  let registers := machine.registers
  ["PC=0x" ++ lowerHex 3 registers.counter.toNat ++ " I=0x" ++ lowerHex 3 registers.index.toNat ++
      s!" SP={machine.stack.depth.val} DT={registers.timers.delay} ST={registers.timers.sound}",
    String.join (registers.general.toList.zipIdx.map fun (value,place) =>
      "V" ++ upperHex 1 place ++ "=" ++ lowerHex 2 value.toNat ++ " ")]

def readArguments : List String → Option (String × Except CountError Nat)
  | [path] => some (path,.ok usualCycles)
  | [path,count] => some (path,readCount count)
  | _ => none

section

variable {m : Type → Type} [Monad m] (terminal : Terminal m)

def fail (diagnostic : String) : m UInt32 := do
  terminal.complain ("Error: " ++ diagnostic)
  return 1

def printDump (machine : Machine) : m Unit := (dump machine).forM terminal.print

/-- Ends the program after a conversation. The environment is taken to set no filter for the log, so
that of the machine's log only warnings are shown, and the only warning is that a fault has stopped it. -/
def conclude (machine : Machine) : Ending → m UInt32
  | .undecodableLine => fail terminal inputDiagnostic
  | .keyRefused fault => fail terminal (faultDiagnostic fault)
  | .fault fault => do
    terminal.complain (LogEntry.machineStopped fault).line
    printDump terminal machine
    fail terminal (faultDiagnostic fault)
  | .cyclesUsed | .inputEnded => do
    printDump terminal machine
    return 0

def play (entropy : ChaCha.Key) (program : List UInt8) (cycles : Nat) : m UInt32 :=
  let loaded := (Machine.fresh settings entropy).load program
  match loaded.answer with
  | .error fault => fail terminal (faultDiagnostic fault)
  | .ok () => do
    let (machine,ending) ← converse terminal cycles loaded.machine
    conclude terminal machine ending

def run (entropy : ChaCha.Key) (arguments : List String) : m UInt32 :=
  match readArguments arguments with
  | none => do
    terminal.print usage
    return 0
  | some (_,.error error) => fail terminal error.diagnostic
  | some (path,.ok cycles) => do
    match ← terminal.readFile path with
    | .error error => fail terminal error.diagnostic
    | .ok program => play terminal entropy program cycles

end

end Chip8.CommandLine
