import Stencil.CommandLine.Run

/-!
# The command

Reads files, writes what a run leaves behind, and ends with its exit code.
-/

namespace Stencil

/-- The number of a system error, which may have been negated on its way. -/
def errorNumber (code : UInt32) : Nat :=
  if code.toNat < Nat.pow 2 31 then code.toNat else Nat.pow 2 32 - code.toNat

/-- The fault of a system error by its number. -/
def FileFault.ofNumber (number : Nat) (details : String) : FileFault :=
  if number = 2 then .missing
  else if number = 13 then .other "Permission denied (os error 13)"
  else if number = 20 then .notDirectory
  else if number = 21 then .directory
  else if number = 36 then .nameTooLong
  else .other s!"{details} (os error {number})"

/-- Why the system would not read a file. -/
def FileFault.ofError : IO.Error → FileFault
  | .noFileOrDirectory _ code details => .ofNumber (errorNumber code) details
  | .inappropriateType _ code details => .ofNumber (errorNumber code) details
  | .permissionDenied _ code details => .ofNumber (errorNumber code) details
  | .invalidArgument _ code details => .ofNumber (errorNumber code) details
  | .otherError code details => .ofNumber (errorNumber code) details
  | error => .other error.toString

/-- The files of the system. -/
def systemFiles : Files IO where
  read path := do
    match ← (IO.FS.readBinFile path).toBaseIO with
    | .ok bytes => pure (.ok bytes)
    | .error error => pure (.error (.ofError error))

end Stencil

/-- Runs the command line. -/
def main (arguments : List String) : IO UInt32 := do
  let outcome ← Stencil.CommandLine.run Stencil.systemFiles arguments
  (← IO.getStdout).putStr outcome.stdout
  (← IO.getStderr).putStr outcome.stderr
  pure outcome.exit.toUInt32
