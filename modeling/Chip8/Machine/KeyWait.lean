import Chip8.Keypad.Arrival
import Chip8.Machine

/-! Keys and the wait for one. A key that goes down ends a wait and is put
into the register that waits for it. A key that goes up ends nothing. -/
namespace Chip8.Machine

def resolveWait (machine : Machine) (key : Key) : Reply Unit :=
  match machine.activity with
  | .awaitingKey register =>
    ⟨(),{machine with
      registers := machine.registers.set register key.code,activity := .running},
      [.waitResolved key register]⟩
  | .running => ⟨(),machine,[]⟩

def press (machine : Machine) (code : UInt8) : Reply (Except Fault Unit) :=
  match Key.ofCode? code with
  | some key =>
    let resolved := {machine with keypad := machine.keypad.set key true}.resolveWait key
    ⟨.ok (),resolved.machine,resolved.log⟩
  | none => ⟨.error (.invalidKey code),machine,[]⟩

def release (machine : Machine) (code : UInt8) : Reply (Except Fault Unit) :=
  match machine.keypad.record code false with
  | .ok keypad => ⟨.ok (),{machine with keypad},[]⟩
  | .error fault => ⟨.error fault,machine,[]⟩

def waitForKey {ε : Type} (machine : Machine) (map : ε → Option UInt8) (events : List ε) :
    Reply (Option Key × List ε) :=
  match machine.activity with
  | .running => ⟨(none,events),machine,[]⟩
  | .awaitingKey _ =>
    let (arrival,keypad) := machine.keypad.await map events
    let waited := {machine with keypad}
    match arrival.key with
    | none => ⟨(none,arrival.remaining),waited,arrival.log⟩
    | some key =>
      let resolved := waited.resolveWait key
      ⟨(some key,arrival.remaining),resolved.machine,arrival.log ++ resolved.log⟩

def cancelWait (machine : Machine) : Reply Bool :=
  match machine.activity with
  | .awaitingKey _ => ⟨true,{machine with activity := .running},[.waitCancelled]⟩
  | .running => ⟨false,machine,[]⟩

end Chip8.Machine
