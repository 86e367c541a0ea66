import Chip8.Fault

/-! The four kilobytes of memory. Instructions that address through `I` go
around its end, instruction words do not. All writing is one operation, a run
of bytes put down in consecutive cells. -/
namespace Chip8

def programStart : Nat := 0x200

/-- The last cell of memory is never part of a program. -/
def longestProgram : Nat := 4096 - programStart - 1

structure Memory where
  cells : Vector UInt8 4096
deriving DecidableEq

namespace Memory

def peek (memory : Memory) (address : Nat) : UInt8 :=
  memory.cells[address % 4096]

def poke (memory : Memory) (address : Nat) (value : UInt8) : Memory :=
  ⟨memory.cells.set (address % 4096) value⟩

@[simp] theorem peek_poke (memory : Memory) (address place : Nat) (value : UInt8) :
    (memory.poke address value).peek place =
      if address % 4096 = place % 4096 then value else memory.peek place := by
  simp only [peek,poke,Vector.getElem_set]

def read (memory : Memory) (address : Nat) : Except Fault UInt8 :=
  if address < 4096 then .ok (memory.peek address) else .error (.addressOutOfRange address)

def write (memory : Memory) (address : Nat) (value : UInt8) : Except Fault Memory :=
  if address < 4096 then .ok (memory.poke address value)
  else .error (.addressOutOfRange address)

def readWord (memory : Memory) (address : Nat) : Except Fault UInt16 := do
  let high ← memory.read address
  let low ← memory.read (address + 1)
  return high.toUInt16 <<< 8 ||| low.toUInt16

def store (memory : Memory) (address : Nat) : List UInt8 → Memory
  | [] => memory
  | byte :: bytes => (memory.poke address byte).store (address + 1) bytes

theorem store_append (memory : Memory) (address : Nat) (first second : List UInt8) :
    memory.store address (first ++ second) =
      (memory.store address first).store (address + first.length) second := by
  induction first generalizing memory address with
  | nil => rfl
  | cons byte bytes ih =>
    have next : address + 1 + bytes.length = address + (bytes.length + 1) := by omega
    simp only [List.cons_append,store,ih,List.length_cons,next]

/-- A run of bytes that does not overtake itself is read back as it was put down, and all cells
outside the run keep their bytes. -/
theorem peek_store (memory : Memory) (address place : Nat) (bytes : List UInt8)
    (fits : bytes.length ≤ 4096) :
    (memory.store address bytes).peek place =
      bytes.getD ((place + (4096 - address % 4096)) % 4096) (memory.peek place) := by
  induction bytes generalizing memory address with
  | nil => simp [store]
  | cons byte bytes ih =>
    have shorter : bytes.length < 4096 := by simp only [List.length_cons] at fits; omega
    rw [store,ih (memory.poke address byte) (address + 1) (by omega),peek_poke]
    by_cases here : address % 4096 = place % 4096
    · have offset : (place + (4096 - address % 4096)) % 4096 = 0 := by omega
      have behind : (place + (4096 - (address + 1) % 4096)) % 4096 = 4095 := by omega
      rw [offset,behind,if_pos here,List.getD_eq_getElem?_getD,
        List.getElem?_eq_none (by omega)]
      rfl
    · have offset : (place + (4096 - address % 4096)) % 4096 =
          (place + (4096 - (address + 1) % 4096)) % 4096 + 1 := by omega
      rw [offset,if_neg here,List.getD_cons_succ]

def slice (memory : Memory) (address count : Nat) : List UInt8 :=
  (List.range count).map fun offset => memory.peek (address + offset)

def glyphs : List UInt8 :=
  [0xF0,0x90,0x90,0x90,0xF0,
   0x20,0x60,0x20,0x20,0x70,
   0xF0,0x10,0xF0,0x80,0xF0,
   0xF0,0x10,0xF0,0x10,0xF0,
   0x90,0x90,0xF0,0x10,0x10,
   0xF0,0x80,0xF0,0x10,0xF0,
   0xF0,0x80,0xF0,0x90,0xF0,
   0xF0,0x10,0x20,0x40,0x40,
   0xF0,0x90,0xF0,0x90,0xF0,
   0xF0,0x90,0xF0,0x10,0xF0,
   0xF0,0x90,0xF0,0x90,0x90,
   0xE0,0x90,0xE0,0x90,0xE0,
   0xF0,0x80,0x80,0x80,0xF0,
   0xE0,0x90,0x90,0x90,0xE0,
   0xF0,0x80,0xF0,0x80,0xF0,
   0xF0,0x80,0xF0,0x80,0x80]

def glyphAddress (digit : UInt8) : UInt16 := digit.toUInt16 * 5

def zero : Memory := ⟨Vector.replicate 4096 0⟩

def initial : Memory := zero.store 0 glyphs

def load (memory : Memory) (program : List UInt8) : Except Fault Memory :=
  if program.length ≤ longestProgram then .ok (memory.store programStart program)
  else .error (.programTooLarge program.length longestProgram (UInt16.ofNat programStart))

end Memory

end Chip8
