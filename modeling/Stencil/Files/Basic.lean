/-!
# Files

A view of files that can be read by their paths, and what can keep a file from being read.
-/

namespace Stencil

/-- Why a file cannot be read. -/
inductive FileFault where
  | missing
  | directory
  /-- The path goes on after a file. -/
  | notDirectory
  | nameTooLong
  /-- The bytes are no UTF-8 text. -/
  | notText
  | other (message : String)
deriving DecidableEq, Repr, Inhabited

namespace FileFault

/-- The wording of a fault. -/
def message : FileFault → String
  | .missing => "No such file or directory (os error 2)"
  | .directory => "Is a directory (os error 21)"
  | .notDirectory => "Not a directory (os error 20)"
  | .nameTooLong => "File name too long (os error 36)"
  | .notText => "stream did not contain valid UTF-8"
  | .other message => message

/-- Whether the path names no file at all. -/
def isAbsence : FileFault → Bool
  | .missing => true
  | .directory => true
  | .notDirectory => true
  | .nameTooLong => true
  | .notText => false
  | .other _ => false

end FileFault

/-- Files that can be read by their paths. -/
structure Files (m : Type → Type) where
  read : String → m (Except FileFault ByteArray)

/-- The text that some bytes encode. -/
def decodeText (bytes : ByteArray) : Except FileFault String :=
  match String.fromUTF8? bytes with
  | some text => .ok text
  | none => .error .notText

/-- Reads a file as a text. -/
def Files.readText {m : Type → Type} [Monad m] (files : Files m) (path : String) :
    m (Except FileFault String) := do
  match ← files.read path with
  | .ok bytes => pure (decodeText bytes)
  | .error fault => pure (.error fault)

end Stencil
