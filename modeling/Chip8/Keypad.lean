import Chip8.Fault

/-! The pad of sixteen keys. Hosts name keys by bytes, and only the first
sixteen of those name one. -/
namespace Chip8

abbrev Key := Fin 16

namespace Key

def ofCode? (code : UInt8) : Option Key :=
  if inside : code.toNat < 16 then some ⟨code.toNat,inside⟩ else none

def code (key : Key) : UInt8 := UInt8.ofNat key.val

theorem ofCode?_code (key : Key) : ofCode? key.code = some key := by
  revert key; decide

def layout : List (Char × UInt8) :=
  [('1',0x1),('2',0x2),('3',0x3),('4',0xC),
   ('q',0x4),('w',0x5),('e',0x6),('r',0xD),
   ('a',0x7),('s',0x8),('d',0x9),('f',0xE),
   ('z',0xA),('x',0x0),('c',0xB),('v',0xF)]

/-- The code of the key that a character stands for. Small and capital letters do the same, and
letters beyond the twenty-six have no second case here. -/
def ofChar? (typed : Char) : Option UInt8 := layout.lookup typed.toLower

end Key

structure Keypad where
  held : Vector Bool 16
deriving DecidableEq

namespace Keypad

def released : Keypad := ⟨Vector.replicate 16 false⟩

def set (pad : Keypad) (key : Key) (down : Bool) : Keypad := ⟨pad.held.set key down⟩

def record (pad : Keypad) (code : UInt8) (down : Bool) : Except Fault Keypad :=
  match Key.ofCode? code with
  | some key => .ok (pad.set key down)
  | none => .error (.invalidKey code)

def isDown (pad : Keypad) (code : UInt8) : Bool :=
  match Key.ofCode? code with
  | some key => pad.held[key]
  | none => false

@[simp] theorem isDown_released (code : UInt8) : released.isDown code = false := by
  unfold isDown
  split <;> simp [released]

theorem isDown_set (pad : Keypad) (key : Key) (down : Bool) (code : UInt8) :
    (pad.set key down).isDown code =
      if Key.ofCode? code = some key then down else pad.isDown code := by
  unfold isDown
  split
  · rename_i other named
    simp [set,Vector.getElem_set,named,Fin.ext_iff,eq_comm]
  · rename_i unnamed
    simp [unnamed]

end Keypad

end Chip8
