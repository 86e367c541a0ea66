import Chip8.CommandLine.File
import Chip8.CommandLine.InputLine

/-! What the command line needs of its surroundings, and surroundings that are
plain values: files given by a function, input given by its lines, and output
kept in the order in which it was written. A file that stands for the input
takes all of it, so that no line is left to be read. -/
namespace Chip8.CommandLine

structure Terminal (m : Type → Type) where
  readFile : String → m (Except FileError (List UInt8))
  readLine : m (Option InputLine)
  print : String → m Unit
  complain : String → m Unit

structure Transcript where
  input : List (List UInt8)
  printed : List String := []
  complaints : List String := []
deriving DecidableEq

namespace Transcript

def terminal (files : String → Except FileError FileContent) :
    Terminal (StateM Transcript) where
  readFile path transcript :=
    match files path with
    | .ok (.bytes bytes) => (.ok bytes,transcript)
    | .ok .input => (.ok transcript.input.flatten,{transcript with input := []})
    | .error error => (.error error,transcript)
  readLine transcript :=
    (transcript.input.head?.map .ofBytes,{transcript with input := transcript.input.tail})
  print line transcript := ((),{transcript with printed := transcript.printed ++ [line]})
  complain line transcript :=
    ((),{transcript with complaints := transcript.complaints ++ [line]})

end Transcript

end Chip8.CommandLine
