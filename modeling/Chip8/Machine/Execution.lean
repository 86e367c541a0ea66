import Chip8.Instruction
import Chip8.Machine

/-! What each instruction does to a machine. Only a call and a return can
fail, and they do so before anything has changed. -/
namespace Chip8

def Condition.holds (registers : Registers) (keypad : Keypad) : Condition → Bool
  | .equals x byte => registers.get x = byte
  | .differs x byte => registers.get x ≠ byte
  | .same x y => registers.get x = registers.get y
  | .different x y => registers.get x ≠ registers.get y
  | .keyDown x => keypad.isDown (registers.get x)
  | .keyUp x => !keypad.isDown (registers.get x)

namespace Registers

/-- Combines two registers. The result is written before the flag, so the flag wins where both
go to the flag register. -/
def calculate (registers : Registers) (calculation : Calculation) (x y : Register) : Registers :=
  let a := registers.get x
  let b := registers.get y
  let combined := registers.set x (calculation.result a b)
  match calculation.flag? a b with
  | some raised => combined.setFlag raised
  | none => combined

def upTo (registers : Registers) (last : Register) : List UInt8 :=
  registers.general.toList.take (last + 1)

def fill (registers : Registers) (last : Register) (value : Register → UInt8) : Registers :=
  {registers with
    general := Vector.ofFn fun x => if x ≤ last then value x else registers.get x}

@[simp] theorem get_fill (registers : Registers) (last x : Register) (value : Register → UInt8) :
    (registers.fill last value).get x = if x ≤ last then value x else registers.get x := by
  simp [get,fill]

end Registers

def decimalDigits (value : UInt8) : List UInt8 := [value / 100,value / 10 % 10,value % 10]

def Instruction.apply (machine : Machine) : Instruction → Except Fault Machine
  | .clearScreen => .ok {machine with screen := .blank}
  | .returnFromCall => do
    let (address,stack) ← machine.stack.pop
    return {machine with stack,registers := machine.registers.jump address}
  | .jump target => .ok (machine.withRegisters (·.jump target))
  | .jumpOffset base =>
    .ok (machine.withRegisters fun registers => registers.jump (base + (registers.get firstRegister).toUInt16))
  | .call target => do
    let stack ← machine.stack.push machine.registers.counter
    return {machine with stack,registers := machine.registers.jump target}
  | .skipIf condition =>
    .ok (if condition.holds machine.registers machine.keypad then machine.withRegisters .skip
         else machine)
  | .setByte x byte => .ok (machine.withRegisters (·.set x byte))
  | .addByte x byte =>
    .ok (machine.withRegisters fun registers => registers.set x (registers.get x + byte))
  | .calculate calculation x y => .ok (machine.withRegisters (·.calculate calculation x y))
  | .setIndex address => .ok (machine.withRegisters ({· with index := address}))
  | .addIndex x =>
    .ok (machine.withRegisters fun registers =>
      {registers with index := registers.index + (registers.get x).toUInt16})
  | .random x mask =>
    let (byte,source) := machine.random.next
    .ok {machine with
      random := source,registers := machine.registers.set x (byte &&& mask)}
  | .draw x y rows =>
    let registers := machine.registers
    let sprite := machine.memory.slice registers.index.toNat rows
    let (screen,collision) :=
      machine.screen.draw (registers.get x).toNat (registers.get y).toNat sprite rows
    .ok {machine with screen,registers := registers.setFlag collision}
  | .readDelay x =>
    .ok (machine.withRegisters fun registers => registers.set x registers.timers.delay)
  | .setDelay x =>
    .ok (machine.withRegisters fun registers =>
      {registers with timers := {registers.timers with delay := registers.get x}})
  | .setSound x =>
    .ok (machine.withRegisters fun registers =>
      {registers with timers := {registers.timers with sound := registers.get x}})
  | .awaitKey x => .ok {machine with activity := .awaitingKey x}
  | .pointAtGlyph x =>
    .ok (machine.withRegisters fun registers =>
      {registers with index := Memory.glyphAddress (registers.get x)})
  | .storeDigits x =>
    let registers := machine.registers
    .ok {machine with
      memory := machine.memory.store registers.index.toNat (decimalDigits (registers.get x))}
  | .storeRegisters last =>
    let registers := machine.registers
    .ok {machine with
      memory := machine.memory.store registers.index.toNat (registers.upTo last)}
  | .loadRegisters last =>
    .ok (machine.withRegisters fun registers =>
      registers.fill last fun x => machine.memory.peek (registers.index.toNat + x))
  | .unknown _ => .ok machine

def Instruction.remarks : Instruction → List LogEntry
  | .awaitKey x => [.waitStarted x]
  | .unknown word => [.unknownWord word]
  | _ => []

/-- Executes a word that lies directly before the program counter. A machine that waits for a key
refuses the word, and its host has to offer it again. -/
def Machine.execute (machine : Machine) (word : UInt16) : Reply (Except Fault Status) :=
  match machine.activity with
  | .awaitingKey register => ⟨.ok .awaitingKey,machine,[.refusedWord word register]⟩
  | .running =>
    let instruction := Instruction.decode word
    let log := .executing (machine.registers.counter - 2) word :: instruction.remarks
    match instruction.apply machine with
    | .ok after => ⟨.ok after.status,after,log⟩
    | .error fault => ⟨.error fault,machine,log⟩

end Chip8
