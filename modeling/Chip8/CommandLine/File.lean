/-! What a file gives to its reader, and why it may not be read. Most files have
bytes of their own. One stands for the input of whoever reads it, and reading it
takes all that is left of that input. The operating system numbers its reasons
for a refusal, and a few of them have a kind of their own. -/
namespace Chip8.CommandLine

inductive FileContent where
  | bytes (bytes : List UInt8)
  | input
deriving DecidableEq

inductive FileError where
  | missing
  | permissionDenied
  | notDirectory
  | isDirectory
  | nameTooLong
  | other (code : Nat) (description : String)
deriving DecidableEq

namespace FileError

def code : FileError → Nat
  | .missing => 2
  | .permissionDenied => 13
  | .notDirectory => 20
  | .isDirectory => 21
  | .nameTooLong => 36
  | .other code _ => code

def kind : FileError → String
  | .missing => "NotFound"
  | .permissionDenied => "PermissionDenied"
  | .notDirectory => "NotADirectory"
  | .isDirectory => "IsADirectory"
  | .nameTooLong => "InvalidFilename"
  | .other _ _ => "Uncategorized"

def description : FileError → String
  | .missing => "No such file or directory"
  | .permissionDenied => "Permission denied"
  | .notDirectory => "Not a directory"
  | .isDirectory => "Is a directory"
  | .nameTooLong => "File name too long"
  | .other _ description => description

def ofCode (code : Nat) (description : String) : FileError :=
  ([.missing,.permissionDenied,.notDirectory,.isDirectory,.nameTooLong].find?
    fun error => error.code = code).getD (.other code description)

def diagnostic (error : FileError) : String :=
  s!"Os \x7b code: {error.code}, kind: {error.kind}, message: \"" ++ error.description ++
    "\" \x7d"

end FileError

end Chip8.CommandLine
