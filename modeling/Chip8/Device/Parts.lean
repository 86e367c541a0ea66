import Chip8.Device.Routine
import Chip8.Keypad
import Chip8.Memory
import Chip8.Registers
import Chip8.Screen

/-! The parts of a device and the routines on each of them. Registers are
named by bytes, the stack pointer is a byte, and every array is reached by an
index that has to be inside it. -/
namespace Chip8.Device
open Routine

namespace Registers

def value (x : UInt8) : Routine Registers UInt8 := do
  cell (← look (·.general)) (x &&& 0xF).toNat

def assign (x value : UInt8) : Routine Registers Unit := do
  let general ← overwrite (← look (·.general)) (x &&& 0xF).toNat value
  alter ({· with general})

def assignFlag (raised : Bool) : Routine Registers Unit := do
  let general ← overwrite (← look (·.general)) 0xF (if raised then 1 else 0)
  alter ({· with general})

end Registers

structure Stack where
  slots : Vector UInt16 16
  pointer : UInt8
deriving DecidableEq

namespace Stack

def push (address : UInt16) : Routine Stack Unit := do
  let free := (← look (·.pointer)).toNat
  if 16 ≤ free then refuse (.stackOverflow free)
  else do
    let slots ← overwrite (← look (·.slots)) free address
    alter ({· with slots})
    let raised ← sum 8 free 1
    alter ({· with pointer := UInt8.ofNat raised})

def pop : Routine Stack UInt16 := do
  let free := (← look (·.pointer)).toNat
  if free = 0 then refuse .stackUnderflow
  else do
    let lowered ← difference free 1
    alter ({· with pointer := UInt8.ofNat lowered})
    cell (← look (·.slots)) lowered

def frames : Routine Stack (List UInt16) := do
  upTo (← look (·.slots)) (← look (·.pointer)).toNat

end Stack

namespace Memory

def read (address : Nat) : Routine Memory UInt8 := do
  let cells ← look (·.cells)
  if inside : address < 4096 then return cells[address]
  else refuse (.addressOutOfRange address)

def write (address : Nat) (value : UInt8) : Routine Memory Unit := do
  let cells ← look (·.cells)
  if inside : address < 4096 then alter fun _ => ⟨cells.set address value⟩
  else refuse (.addressOutOfRange address)

def readWord (address : Nat) : Routine Memory UInt16 := do
  let high ← read address
  let low ← read (← sum 64 address 1)
  return high.toUInt16 <<< 8 ||| low.toUInt16

def readAround (address : Nat) : Routine Memory UInt8 := do
  cell (← look (·.cells)) (address % 4096)

def writeAround (address : Nat) (value : UInt8) : Routine Memory Unit := do
  let cells ← overwrite (← look (·.cells)) (address % 4096) value
  alter fun _ => ⟨cells⟩

def copy (address : Nat) : List UInt8 → Routine Memory Unit
  | [] => pure ()
  | byte :: bytes => do
    let cells ← overwrite (← look (·.cells)) address byte
    alter fun _ => ⟨cells⟩
    copy (address + 1) bytes

def load (program : List UInt8) : Routine Memory Unit := do
  let finish ← sum 64 program.length programStart
  if 4096 ≤ finish then do
    let room ← difference 4096 programStart
    let longest ← difference room 1
    refuse (.programTooLarge program.length longest (UInt16.ofNat programStart))
  else copy programStart program

end Memory

namespace Keypad

def record (key : UInt8) (down : Bool) : Routine Keypad Unit := do
  if key.toNat < 16 then do
    let held ← overwrite (← look (·.held)) key.toNat down
    alter fun _ => ⟨held⟩
  else refuse (.invalidKey key)

def isDown (key : UInt8) : Routine Keypad Bool := do
  return (← look (·.held))[key.toNat]?.getD false

def await {ε : Type} (map : ε → Option UInt8) : List ε → Routine Keypad (Option UInt8 × List ε)
  | [] => pure (none,[])
  | event :: events =>
    match map event with
    | none => await map events
    | some key =>
      if key.toNat < 16 then do
        let held ← overwrite (← look (·.held)) key.toNat true
        alter fun _ => ⟨held⟩
        return (some key,events)
      else await map events

end Keypad

namespace Screen

def pixel (row column : Nat) : Routine Screen Bool := do
  demand (if row < 32 ∧ column < 64 then some () else none)
  cell (← look (·.pixels)) (64 * row + column)

def setPixel (row column : Nat) (lit : Bool) : Routine Screen Unit := do
  demand (if row < 32 ∧ column < 64 then some () else none)
  let pixels ← overwrite (← look (·.pixels)) (64 * row + column) lit
  alter fun _ => ⟨pixels⟩

def drawBit (x row : Nat) (bits : UInt8) (collision : Bool) (column : Nat) :
    Routine Screen Bool := do
  if bits &&& (0x80 >>> UInt8.ofNat column) = 0 then return collision
  else do
    let place := (← sum 64 x column) % 64
    let found ← pixel row place
    setPixel row place (!found)
    return collision || found

def drawRow (x y : Nat) (collision : Bool) (bits : UInt8 × Nat) : Routine Screen Bool := do
  let row := (← sum 64 y bits.2) % 32
  (List.range 8).foldlM (drawBit x row bits.1) collision

def draw (x y : Nat) (sprite : List UInt8) (height : Nat) : Routine Screen Bool :=
  (sprite.take height).zipIdx.foldlM (drawRow x y) false

end Screen

end Chip8.Device
