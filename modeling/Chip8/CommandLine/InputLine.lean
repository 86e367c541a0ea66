/-! Lines of standard input. A line ends behind its line feed, and the last one
may lack it. Cutting the input into lines loses nothing. Whether the bytes of a
line are text is judged line by line. -/
namespace Chip8.CommandLine

inductive InputLine where
  | text (line : String)
  | undecodable
deriving DecidableEq

namespace InputLine

def withoutEnd (bytes : List UInt8) : List UInt8 :=
  match bytes.reverse with
  | 10 :: 13 :: rest => rest.reverse
  | 10 :: rest => rest.reverse
  | _ => bytes

def ofBytes (bytes : List UInt8) : InputLine :=
  match String.fromUTF8? ⟨(withoutEnd bytes).toArray⟩ with
  | some line => .text line
  | none => .undecodable

def cons (byte : UInt8) : List (List UInt8) → List (List UInt8)
  | [] => [[byte]]
  | line :: lines => if byte = 10 then [byte] :: line :: lines else (byte :: line) :: lines

def cut (bytes : List UInt8) : List (List UInt8) := bytes.foldr cons []

theorem flatten_cons (byte : UInt8) (lines : List (List UInt8)) :
    (cons byte lines).flatten = byte :: lines.flatten := by
  cases lines with
  | nil => rfl
  | cons line lines => by_cases feed : byte = 10 <;> simp [cons,feed]

@[simp] theorem flatten_cut (bytes : List UInt8) : (cut bytes).flatten = bytes := by
  induction bytes with
  | nil => rfl
  | cons byte bytes ih =>
    have front := flatten_cons byte (cut bytes)
    rw [ih] at front
    exact front

end InputLine

end Chip8.CommandLine
