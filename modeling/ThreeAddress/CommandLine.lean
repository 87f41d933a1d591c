import ThreeAddress.Report

/-!
# The command line

The command takes one file, compiles and runs it, and prints a report. The report of a failed
compilation is printed without the failure, which goes to the error output.

## Main definitions

* `Flag.ofArgument?` reads the name of a flag, and `Invocation.ofArguments?` all arguments of the command.
* `respond` is the answer to a command, given the contents of the files.
-/

namespace ThreeAddress

/-- A switch of the command. -/
inductive Flag where
  | checkLabels
  | quiet

/-- What the arguments ask for. -/
structure Invocation where
  file : Option String
  checkLabels : Bool
  quiet : Bool

/-- Why a file cannot be read as a text. -/
inductive ReadFailure where
  | missing
  | denied
  | directory
  | notDirectory
  | nameTooLong
  | notText
  | other (message : String)

/-- The text of a failure. -/
def ReadFailure.message : ReadFailure → String
  | missing => "No such file or directory (os error 2)"
  | denied => "Permission denied (os error 13)"
  | directory => "Is a directory (os error 21)"
  | notDirectory => "Not a directory (os error 20)"
  | nameTooLong => "File name too long (os error 36)"
  | notText => "stream did not contain valid UTF-8"
  | other message => message

/-- What a command prints, and the status it ends with. -/
structure Response where
  output : String
  errors : String
  status : Nat

namespace Response

/-- The answer to arguments that cannot be read. -/
def usage : Response :=
  ⟨"", "usage: three-address [--check-labels] [-q | --quiet] [--] FILE\n", 1⟩

/-- The answer when there is no text to compile. -/
def ofReadFailure (failure : ReadFailure) : Response :=
  ⟨"", failure.message ++ "\n", 1⟩

end Response

namespace Flag

/-- The flag with a name of several letters. -/
def ofName? : String → Option Flag
  | "check-labels" => some checkLabels
  | "quiet" => some quiet
  | _ => none

/-- The flag with a name of one letter. -/
def ofLetter? : Char → Option Flag
  | 'q' => some quiet
  | _ => none

/-- The flag that an argument names. After two dashes or more stands a long name, which an equals sign
ends: no flag takes a value, and what follows the sign has no effect. After one dash stands a letter. -/
def ofArgument? (argument : String) : Option Flag :=
  match argument.toList with
  | '-' :: '-' :: rest => ofName? (String.ofList ((rest.dropWhile (· = '-')).takeWhile (· ≠ '=')))
  | ['-', letter] => ofLetter? letter
  | _ => none

end Flag

namespace Invocation

/-- The invocation without any argument. -/
def empty : Invocation :=
  ⟨none, false, false⟩

/-- The invocation with a file; there can be only one. -/
def withFile? (i : Invocation) (file : String) : Option Invocation :=
  if i.file.isNone then some { i with file := some file } else none

/-- The invocation with a flag; each can be given only once. -/
def withFlag? (i : Invocation) : Flag → Option Invocation
  | .checkLabels => if i.checkLabels then none else some { i with checkLabels := true }
  | .quiet => if i.quiet then none else some { i with quiet := true }

/-- Tells whether an argument is no file: it begins with a dash, and is longer than that. -/
def isDashed (argument : String) : Bool :=
  match argument.toList with
  | '-' :: _ :: _ => true
  | _ => false

/-- Reads the arguments from left to right; after an argument of two dashes all are files. -/
def extend? (onlyFiles : Bool) (i : Invocation) : List String → Option Invocation
  | [] => some i
  | argument :: rest =>
    if onlyFiles || !isDashed argument then (i.withFile? argument).bind (extend? onlyFiles · rest)
    else if argument = "--" then extend? true i rest
    else ((Flag.ofArgument? argument).bind i.withFlag?).bind (extend? false · rest)

/-- Reads all arguments of a command. -/
def ofArguments? (arguments : List String) : Option Invocation :=
  extend? false .empty arguments

/-- What is printed for a compilation: a quiet command prints no more than the final words of the
variables, and only after a success. -/
def output (i : Invocation) (c : Compilation) : String :=
  if i.quiet then (if c.isSuccess then renderBindings c.bindings ++ "\n" else "")
  else { c with failure := none }.report ++ "\n"

/-- The answer to an invocation that came to a compilation. -/
def respondTo (i : Invocation) (c : Compilation) : Response :=
  match c.failure with
  | some failure => ⟨i.output c, failure.message ++ "\n", 1⟩
  | none => ⟨i.output c, "", 0⟩

end Invocation

/-- The answer to the arguments of a command, where `contents` are the bytes of the files; none if
`fuel` instructions were not enough for the run. -/
def respond (fuel : Nat) (arguments : List String) (contents : String → Except ReadFailure ByteArray) :
    Option Response :=
  match Invocation.ofArguments? arguments with
  | none => some .usage
  | some i =>
    match i.file with
    | none => some .usage
    | some file =>
      match contents file with
      | .error failure => some (.ofReadFailure failure)
      | .ok bytes =>
        match String.fromUTF8? bytes with
        | none => some (.ofReadFailure .notText)
        | some text => (Source.compile fuel ⟨i.checkLabels⟩ ⟨text, some file⟩).map i.respondTo

end ThreeAddress
