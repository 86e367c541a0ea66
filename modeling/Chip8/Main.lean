import Chip8.CommandLine.Program

/-! The command line on the real terminal. Input is read as bytes, one line at
a time and only when the program asks for it. -/
namespace Chip8.CommandLine

def FileError.ofError (error : IO.Error) : FileError :=
  let reason (code : UInt32) (details : String) : FileError :=
    .ofCode (if code < 0x80000000 then code else 0 - code).toNat details
  match error with
  | .noFileOrDirectory _ code details => reason code details
  | .inappropriateType _ code details => reason code details
  | .invalidArgument _ code details => reason code details
  | .permissionDenied _ code details => reason code details
  | .resourceExhausted _ code details => reason code details
  | .noSuchThing _ code details => reason code details
  | .otherError code details => reason code details
  | error => .other 0 (toString error)

partial def readBytes (stream : IO.FS.Stream) (line : List UInt8) : IO (List UInt8) := do
  let chunk ← stream.read 1
  match chunk.toList with
  | [] => return line
  | byte :: _ => if byte = 10 then return byte :: line else readBytes stream (byte :: line)

def realTerminal : Terminal IO where
  readFile path := do
    try
      let bytes ← IO.FS.readBinFile path
      return .ok bytes.toList
    catch error =>
      return .error (.ofError error)
  readLine := do
    let line ← readBytes (← IO.getStdin) []
    return if line.isEmpty then none else some (.ofBytes line.reverse)
  print := IO.println
  complain := IO.eprintln

def drawEntropy : IO ChaCha.Key := do
  let bytes ← IO.getRandomBytes 32
  return Vector.ofFn fun word : Fin 8 =>
    (List.range 4).foldr (fun offset value =>
      value <<< 8 ||| (bytes.toList.getD (4 * word.val + offset) 0).toUInt32) 0

end Chip8.CommandLine

def main (arguments : List String) : IO UInt32 := do
  Chip8.CommandLine.run Chip8.CommandLine.realTerminal
    (← Chip8.CommandLine.drawEntropy) arguments
