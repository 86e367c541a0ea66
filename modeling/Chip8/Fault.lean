/-! The conditions that refuse a request to the machine, with their wording.
A word that names no instruction is not among them: it is skipped. Numbers in
hexadecimal have a least number of digits: the width pads and never cuts. -/
namespace Chip8

namespace Text

def lowerHex (width n : Nat) : String :=
  String.ofList (List.leftpad width '0' (Nat.toDigits 16 n))

def upperHex (width n : Nat) : String :=
  String.ofList (List.leftpad width '0' ((Nat.toDigits 16 n).map Char.toUpper))

end Text

open Text

inductive Fault where
  | programTooLarge (length longest : Nat) (start : UInt16)
  | addressOutOfRange (address : Nat)
  | stackOverflow (depth : Nat)
  | stackUnderflow
  | invalidKey (code : UInt8)
deriving DecidableEq

def Fault.message : Fault → String
  | .programTooLarge length longest start =>
    s!"program is too large ({length} bytes), at most {longest} bytes fit after 0x" ++
      upperHex 4 start.toNat
  | .addressOutOfRange address =>
    "memory access out of bounds at address 0x" ++ upperHex 4 address
  | .stackOverflow depth =>
    s!"stack overflow: call with {depth} return addresses already stacked"
  | .stackUnderflow => "stack underflow: return with an empty call stack"
  | .invalidKey code => "key 0x" ++ upperHex 2 code.toNat ++ " is outside the 16-key pad"

end Chip8
