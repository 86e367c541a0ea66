import Chip8.Device.Execution
import Chip8.Machine.Request

/-! What a host can ask of a device, by the same requests as of a machine. A
history of a device goes on after a refusal and ends at a crash. -/
namespace Chip8.Device
open Routine

def status : Routine Device Status := look (·.activity.status)

def execute (word : UInt16) : Routine Device Status := do
  match ← status with
  | .awaitingKey => return .awaitingKey
  | .running => do
    perform word
    status

def load (program : List UInt8) : Routine Device Unit := do
  onMemory (Memory.load program)
  jump (UInt16.ofNat programStart)

def tick : Routine Device Bool := do
  let (registers,expired) ← look (·.registers.tick)
  alter ({· with registers})
  return expired

def countInstruction : Routine Device Unit := do
  match ← look (·.settings.drive) with
  | .host => return
  | .everyInstructions period => do
    let count ← sum 32 (← look (·.sinceTick)).toNat 1
    alter ({· with sinceTick := UInt32.ofNat count})
    if max period 1 ≤ UInt32.ofNat count then
      alter ({· with sinceTick := 0})
      let _ ← tick

def fetch : Routine Device UInt16 := do
  let counter ← look (·.registers.counter)
  let word ← onMemory (Memory.readWord counter.toNat)
  skip
  return word

def step : Routine Device Status := do
  match ← status with
  | .awaitingKey => do
    if ← look (·.settings.ticksWhileWaiting) then countInstruction
    return .awaitingKey
  | .running => do
    let counter ← look (·.registers.counter)
    let word ← fetch
    let status ← (execute word).mending fun device =>
      {device with registers := device.registers.jump counter}
    countInstruction
    return status

def resolveWait (key : UInt8) : Routine Device Unit := do
  match ← look (·.activity) with
  | .running => return
  | .awaitingKey register => do
    assign register key
    alter ({· with activity := .running})

def press (key : UInt8) : Routine Device Unit := do
  onKeypad (Keypad.record key true)
  resolveWait key

def release (key : UInt8) : Routine Device Unit := onKeypad (Keypad.record key false)

def waitForKey {ε : Type} (map : ε → Option UInt8) (events : List ε) :
    Routine Device (Option UInt8 × List ε) := do
  match ← status with
  | .running => return (none,events)
  | .awaitingKey => do
    let (arrived,remaining) ← onKeypad (Keypad.await map events)
    match arrived with
    | none => return (none,remaining)
    | some key => do
      resolveWait key
      return (some key,remaining)

def cancelWait : Routine Device Bool := do
  match ← status with
  | .running => return false
  | .awaitingKey => do
    alter ({· with activity := .running})
    return true

def serve : Request → Routine Device Answer
  | .load program => do load program; return .done
  | .fetch => do return .word (← fetch)
  | .step => do return .status (← step)
  | .execute word => do return .status (← execute word)
  | .press code => do press code; return .done
  | .release code => do release code; return .done
  | .wait codes => do
    let (arrived,remaining) ← waitForKey id codes
    match arrived with
    | none => return .arrival none remaining.length
    | some code => return .arrival (some (← demand (Key.ofCode? code))) remaining.length
  | .cancelWait => do return .flag (← cancelWait)
  | .tick => do return .flag (← tick)
  | .reset entropy => do
    alter fun device => fresh device.settings entropy
    return .done

def after (device : Device) : List Request → Option Device
  | [] => some device
  | request :: history =>
    match (serve request).run device with
    | .done _ left => left.after history
    | .refused _ left => left.after history
    | .crashed => none

end Chip8.Device
