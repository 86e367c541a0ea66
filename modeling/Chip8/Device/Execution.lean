import Chip8.Device.Parts
import Chip8.Instruction
import Chip8.Machine

/-! A device is a machine whose numbers have the widths of a processor: the
stack pointer and the number of the register that waits for a key are bytes,
and the instructions since the last tick are counted in thirty-two bits. It
takes words apart digit by digit and changes its state in place. -/
namespace Chip8

inductive Device.Activity where
  | running
  | awaitingKey (register : UInt8)
deriving DecidableEq

def Device.Activity.status : Device.Activity → Status
  | .running => .running
  | .awaitingKey _ => .awaitingKey

structure Device where
  settings : Settings
  registers : Registers
  stack : Device.Stack
  memory : Memory
  screen : Screen
  keypad : Keypad
  activity : Device.Activity
  sinceTick : UInt32
  random : RandomSource
deriving DecidableEq

namespace Device
open Routine

def fresh (settings : Settings) (entropy : ChaCha.Key) : Device where
  settings := settings
  registers := .zero
  stack := ⟨Vector.replicate 16 0,0⟩
  memory := .initial
  screen := .blank
  keypad := .released
  activity := .running
  sinceTick := 0
  random := match settings.seed with
    | some seed => .ofSeed seed
    | none => .ofKey entropy

section Parts
variable {α : Type}

def onRegisters : Routine Registers α → Routine Device α :=
  on (·.registers) ({· with registers := ·})

def onStack : Routine Stack α → Routine Device α := on (·.stack) ({· with stack := ·})

def onMemory : Routine Memory α → Routine Device α := on (·.memory) ({· with memory := ·})

def onScreen : Routine Screen α → Routine Device α := on (·.screen) ({· with screen := ·})

def onKeypad : Routine Keypad α → Routine Device α := on (·.keypad) ({· with keypad := ·})

end Parts

def value (x : UInt8) : Routine Device UInt8 := onRegisters (Registers.value x)

def assign (x value : UInt8) : Routine Device Unit := onRegisters (Registers.assign x value)

def assignFlag (raised : Bool) : Routine Device Unit := onRegisters (Registers.assignFlag raised)

def index : Routine Device Nat := look (·.registers.index.toNat)

def point (address : UInt16) : Routine Device Unit :=
  alter fun device => {device with registers := {device.registers with index := address}}

def jump (address : UInt16) : Routine Device Unit :=
  alter fun device => {device with registers := device.registers.jump address}

def skip : Routine Device Unit :=
  alter fun device => {device with registers := device.registers.skip}

def clearScreen : Routine Device Unit := alter ({· with screen := .blank})

def returnFromCall : Routine Device Unit := do
  jump (← onStack Stack.pop)

def call (target : UInt16) : Routine Device Unit := do
  onStack (Stack.push (← look (·.registers.counter)))
  jump target

def jumpOffset (base : UInt16) : Routine Device Unit := do
  let offset ← value 0
  jump (UInt16.ofNat (← sum 16 base.toNat offset.toNat))

def skipIf (condition : Routine Device Bool) : Routine Device Unit := do
  if ← condition then skip

def equalsByte (x byte : UInt8) : Routine Device Bool := do
  return (← value x) = byte

def equalsRegister (x y : UInt8) : Routine Device Bool := do
  return (← value x) = (← value y)

def keyDown (x : UInt8) : Routine Device Bool := do
  onKeypad (Keypad.isDown (← value x))

def opposite (condition : Routine Device Bool) : Routine Device Bool := do
  return !(← condition)

def addByte (x byte : UInt8) : Routine Device Unit := do
  assign x ((← value x) + byte)

def calculate (calculation : Calculation) (x y : UInt8) : Routine Device Unit := do
  let a ← value x
  let b ← value y
  assign x (calculation.result a b)
  match calculation.flag? a b with
  | some raised => assignFlag raised
  | none => return

def randomByte (x mask : UInt8) : Routine Device Unit := do
  let (byte,source) ← look (·.random.next)
  alter ({· with random := source})
  assign x (byte &&& mask)

def draw (x y rows : UInt8) : Routine Device Unit := do
  let left ← value x
  let top ← value y
  let start ← index
  let gathered ← (List.range (min rows.toNat 15)).mapM fun row => do
    onMemory (Memory.readAround (← sum 64 start row))
  let sprite := gathered ++ List.replicate (15 - gathered.length) 0
  let collision ← onScreen (Screen.draw left.toNat top.toNat sprite rows.toNat)
  assignFlag collision

def readDelay (x : UInt8) : Routine Device Unit := do
  assign x (← look (·.registers.timers.delay))

def awaitKey (x : UInt8) : Routine Device Unit := alter ({· with activity := .awaitingKey x})

def setTimers (x : UInt8) (put : Timers → UInt8 → Timers) : Routine Device Unit := do
  let loaded ← value x
  alter fun device =>
    {device with
      registers := {device.registers with timers := put device.registers.timers loaded}}

def addIndex (x : UInt8) : Routine Device Unit := do
  let start ← look (·.registers.index)
  point (start + (← value x).toUInt16)

def pointAtGlyph (x : UInt8) : Routine Device Unit := do
  point (UInt16.ofNat (← product 16 (← value x).toNat 5))

def storeDigits (x : UInt8) : Routine Device Unit := do
  let number ← value x
  let start ← index
  onMemory (Memory.writeAround start (number / 100))
  onMemory (Memory.writeAround (← sum 64 start 1) (number / 10 % 10))
  onMemory (Memory.writeAround (← sum 64 start 2) (number % 10))

def storeRegisters (last : UInt8) : Routine Device Unit := do
  let start ← index
  (List.range (last.toNat + 1)).forM fun place => do
    let address ← sum 64 start place
    onMemory (Memory.writeAround address (← value (UInt8.ofNat place)))

def loadRegisters (last : UInt8) : Routine Device Unit := do
  let start ← index
  (List.range (last.toNat + 1)).forM fun place => do
    let byte ← onMemory (Memory.readAround (← sum 64 start place))
    assign (UInt8.ofNat place) byte

def digit (word place : UInt16) : UInt8 := (word >>> (4 * place) &&& 0xF).toUInt8

def perform (word : UInt16) : Routine Device Unit :=
  let x := digit word 2
  let y := digit word 1
  let nnn := word &&& 0x0FFF
  let kk := (word &&& 0x00FF).toUInt8
  match (digit word 3).toNat, x.toNat, y.toNat, (digit word 0).toNat with
  | 0x0, 0x0, 0xE, 0x0 => clearScreen
  | 0x0, 0x0, 0xE, 0xE => returnFromCall
  | 0x1, _, _, _ => jump nnn
  | 0x2, _, _, _ => call nnn
  | 0x3, _, _, _ => skipIf (equalsByte x kk)
  | 0x4, _, _, _ => skipIf (opposite (equalsByte x kk))
  | 0x5, _, _, 0x0 => skipIf (equalsRegister x y)
  | 0x6, _, _, _ => assign x kk
  | 0x7, _, _, _ => addByte x kk
  | 0x8, _, _, 0x0 => calculate .copy x y
  | 0x8, _, _, 0x1 => calculate .or x y
  | 0x8, _, _, 0x2 => calculate .and x y
  | 0x8, _, _, 0x3 => calculate .xor x y
  | 0x8, _, _, 0x4 => calculate .add x y
  | 0x8, _, _, 0x5 => calculate .subtract x y
  | 0x8, _, _, 0x6 => calculate .shiftRight x y
  | 0x8, _, _, 0x7 => calculate .subtractFrom x y
  | 0x8, _, _, 0xE => calculate .shiftLeft x y
  | 0x9, _, _, 0x0 => skipIf (opposite (equalsRegister x y))
  | 0xA, _, _, _ => point nnn
  | 0xB, _, _, _ => jumpOffset nnn
  | 0xC, _, _, _ => randomByte x kk
  | 0xD, _, _, rows => draw x y (UInt8.ofNat rows)
  | 0xE, _, 0x9, 0xE => skipIf (keyDown x)
  | 0xE, _, 0xA, 0x1 => skipIf (opposite (keyDown x))
  | 0xF, _, 0x0, 0x7 => readDelay x
  | 0xF, _, 0x0, 0xA => awaitKey x
  | 0xF, _, 0x1, 0x5 => setTimers x ({· with delay := ·})
  | 0xF, _, 0x1, 0x8 => setTimers x ({· with sound := ·})
  | 0xF, _, 0x1, 0xE => addIndex x
  | 0xF, _, 0x2, 0x9 => pointAtGlyph x
  | 0xF, _, 0x3, 0x3 => storeDigits x
  | 0xF, _, 0x5, 0x5 => storeRegisters x
  | 0xF, _, 0x6, 0x5 => loadRegisters x
  | _, _, _, _ => return

end Device

end Chip8
