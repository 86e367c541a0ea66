import Chip8.Registers

/-! The instructions of the machine and the words that stand for them. Every
word stands for exactly one instruction: those without a meaning of their own
stand for the instruction that does nothing. -/
namespace Chip8

inductive Calculation where
  | copy
  | or
  | and
  | xor
  | add
  | subtract
  | shiftRight
  | subtractFrom
  | shiftLeft
deriving DecidableEq

namespace Calculation

def ofDigit? : Nat → Option Calculation
  | 0x0 => some .copy
  | 0x1 => some .or
  | 0x2 => some .and
  | 0x3 => some .xor
  | 0x4 => some .add
  | 0x5 => some .subtract
  | 0x6 => some .shiftRight
  | 0x7 => some .subtractFrom
  | 0xE => some .shiftLeft
  | _ => none

def result : Calculation → UInt8 → UInt8 → UInt8
  | .copy, _, b => b
  | .or, a, b => a ||| b
  | .and, a, b => a &&& b
  | .xor, a, b => a ^^^ b
  | .add, a, b => a + b
  | .subtract, a, b => a - b
  | .shiftRight, a, _ => a >>> 1
  | .subtractFrom, a, b => b - a
  | .shiftLeft, a, _ => a <<< 1

/-- What becomes of the flag. Bitwise calculations leave it alone. An addition raises it when it
overflows, a shift when the bit shifted out is set, and a subtraction when the minuend is strictly
the greater one, so that equal numbers lower it. -/
def flag? : Calculation → UInt8 → UInt8 → Option Bool
  | .add, a, b => some (BitVec.uaddOverflow a.toBitVec b.toBitVec)
  | .subtract, a, b => some (a > b)
  | .shiftRight, a, _ => some (a &&& 1 = 1)
  | .subtractFrom, a, b => some (b > a)
  | .shiftLeft, a, _ => some (a >>> 7 = 1)
  | _, _, _ => none

end Calculation

inductive Condition where
  | equals (x : Register) (byte : UInt8)
  | differs (x : Register) (byte : UInt8)
  | same (x y : Register)
  | different (x y : Register)
  | keyDown (x : Register)
  | keyUp (x : Register)
deriving DecidableEq

inductive Instruction where
  | clearScreen
  | returnFromCall
  | jump (target : UInt16)
  | jumpOffset (base : UInt16)
  | call (target : UInt16)
  | skipIf (condition : Condition)
  | setByte (x : Register) (byte : UInt8)
  | addByte (x : Register) (byte : UInt8)
  | calculate (calculation : Calculation) (x y : Register)
  | setIndex (address : UInt16)
  | addIndex (x : Register)
  | random (x : Register) (mask : UInt8)
  | draw (x y : Register) (rows : Fin 16)
  | readDelay (x : Register)
  | setDelay (x : Register)
  | setSound (x : Register)
  | awaitKey (x : Register)
  | pointAtGlyph (x : Register)
  | storeDigits (x : Register)
  | storeRegisters (last : Register)
  | loadRegisters (last : Register)
  | unknown (word : UInt16)
deriving DecidableEq

namespace Instruction

/-- The instruction that a word stands for. The first digit selects a family. The digits behind it
name registers `x` and `y`, a byte `kk` or an address `nnn`, or select within the family.

* `00E0` clears the screen and `00EE` returns from a call. `1nnn` jumps, `Bnnn` jumps by the first
  register further, and `2nnn` calls.
* `3xkk`, `4xkk`, `5xy0`, `9xy0`, `Ex9E` and `ExA1` skip on a condition.
* `6xkk` sets and `7xkk` adds a byte, and `Cxkk` sets a random byte under a mask.
* `8xy0` to `8xy7` and `8xyE` calculate.
* `Annn` sets the address register, `Fx1E` adds to it, and `Fx29` points it at a glyph.
* `Dxyn` draws `n` rows. `Fx33`, `Fx55` and `Fx65` store digits, store registers and load them.
* `Fx07`, `Fx15` and `Fx18` read and set timers, and `Fx0A` waits for a key. -/
def decode (word : UInt16) : Instruction :=
  let x : Register := ⟨word.toNat / 256 % 16,Nat.mod_lt _ (by decide)⟩
  let y : Register := ⟨word.toNat / 16 % 16,Nat.mod_lt _ (by decide)⟩
  let last : Fin 16 := ⟨word.toNat % 16,Nat.mod_lt _ (by decide)⟩
  let byte := word.toUInt8
  let address := word % 0x1000
  match word.toNat / 4096 with
  | 0x0 => if word = 0x00E0 then .clearScreen
           else if word = 0x00EE then .returnFromCall else .unknown word
  | 0x1 => .jump address
  | 0x2 => .call address
  | 0x3 => .skipIf (.equals x byte)
  | 0x4 => .skipIf (.differs x byte)
  | 0x5 => if last.val = 0 then .skipIf (.same x y) else .unknown word
  | 0x6 => .setByte x byte
  | 0x7 => .addByte x byte
  | 0x8 => match Calculation.ofDigit? last with
           | some calculation => .calculate calculation x y
           | none => .unknown word
  | 0x9 => if last.val = 0 then .skipIf (.different x y) else .unknown word
  | 0xA => .setIndex address
  | 0xB => .jumpOffset address
  | 0xC => .random x byte
  | 0xD => .draw x y last
  | 0xE => if byte = 0x9E then .skipIf (.keyDown x)
           else if byte = 0xA1 then .skipIf (.keyUp x) else .unknown word
  | _ => match byte.toNat with
         | 0x07 => .readDelay x
         | 0x0A => .awaitKey x
         | 0x15 => .setDelay x
         | 0x18 => .setSound x
         | 0x1E => .addIndex x
         | 0x29 => .pointAtGlyph x
         | 0x33 => .storeDigits x
         | 0x55 => .storeRegisters x
         | 0x65 => .loadRegisters x
         | _ => .unknown word

end Instruction

end Chip8
