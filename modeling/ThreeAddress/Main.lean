import ThreeAddress.CommandLine

/-!
# The command

Reads the file that the arguments name, prints the answer, and ends with its status.
-/

namespace ThreeAddress

/-- Tells whether `code` stands for the system error `number`; some systems negate the number. -/
def isCodeOf (number code : UInt32) : Bool :=
  code = number || code = 0 - number

/-- The bytes of a file. -/
def readContents (file : String) : IO (Except ReadFailure ByteArray) := do
  try
    return .ok (← IO.FS.readBinFile file)
  catch
    | .noFileOrDirectory .. => return .error .missing
    | .permissionDenied .. => return .error .denied
    | .inappropriateType _ code _ =>
      return .error (if isCodeOf 20 code then .notDirectory else .directory)
    | .invalidArgument _ code details =>
      return .error (if isCodeOf 36 code then .nameTooLong else .other details)
    | error => return .error (.other (toString error))

/-- More instructions than any run that is waited for executes. -/
def patience : Nat :=
  4611686018427387904

end ThreeAddress

open ThreeAddress

/-- Answers the arguments of the command. -/
def main (arguments : List String) : IO UInt32 := do
  let file := (Invocation.ofArguments? arguments).bind Invocation.file
  let contents ← readContents (file.getD "")
  match respond patience arguments fun _ => contents with
  | none => return 2
  | some response =>
    IO.print response.output
    IO.eprint response.errors
    return response.status.toUInt32
