/-! Reading a number of cycles. It has sixty-four bits, a leading plus sign is
allowed, and of two defects the one further left is reported. -/
namespace Chip8.CommandLine

inductive CountError where
  | empty
  | invalidDigit
  | overflow
deriving DecidableEq

def CountError.diagnostic (error : CountError) : String :=
  let kind := match error with
    | .empty => "Empty"
    | .invalidDigit => "InvalidDigit"
    | .overflow => "PosOverflow"
  "ParseIntError \x7b kind: " ++ kind ++ " \x7d"

def readDigits (value : Nat) : List Char → Except CountError Nat
  | [] => .ok value
  | digit :: digits =>
    if digit.isDigit then
      let next := value * 10 + (digit.toNat - '0'.toNat)
      if next < UInt64.size then readDigits next digits else .error .overflow
    else
      .error .invalidDigit

def readCount (text : String) : Except CountError Nat :=
  match text.toList with
  | [] => .error .empty
  | ['+'] => .error .invalidDigit
  | '+' :: digits => readDigits 0 digits
  | digits => readDigits 0 digits

end Chip8.CommandLine
