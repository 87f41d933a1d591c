import ThreeAddress.Code.Instruction
import ThreeAddress.Text.Padded

/-!
# Events

What a compilation tells about its progress. Each event has a level of detail, the part of the pipeline
that tells it, and a text.

## Main definitions

* `Event` with its `level`, `target` and `message`.
-/

namespace ThreeAddress

/-- How detailed an event is, the most detailed first. -/
inductive Detail where
  | trace
  | debug
  | info
deriving DecidableEq

/-- The name of a level of detail. -/
def Detail.label : Detail → String
  | trace => "TRACE"
  | debug => "DEBUG"
  | info => "INFO"

/-- Something that a compilation tells. -/
inductive Event where
  | token (token : Token)
  | tokensProduced (count : Nat)
  | lexed (tokens : Nat)
  | statementsParsed (count : Nat)
  | parsed (statements : Nat)
  | temporary (name : String)
  | emitted (instruction : Instruction)
  | codeGenerated (code : Code)
  | generated (instructions symbols : Nat)
  | executing (instructions : Nat)
  | instruction (pc : Nat) (instruction : Instruction)
  | userState (words : List (String × Int64))
  | halted (steps : Nat)
  | executed (steps : Nat)
  | failed (message : String)

namespace Event

/-- How detailed the event is. -/
def level : Event → Detail
  | token _ | temporary _ | emitted _ | instruction .. => .trace
  | tokensProduced _ | statementsParsed _ | codeGenerated _ | userState _ | halted _ => .debug
  | lexed _ | parsed _ | generated .. | executing _ | executed _ | failed _ => .info

/-- The part of the pipeline that tells the event. -/
def target : Event → String
  | token _ | tokensProduced _ => "lexer"
  | statementsParsed _ => "parser"
  | temporary _ => "symbols"
  | emitted _ => "irgen::emit"
  | codeGenerated _ => "irgen"
  | executing _ | instruction .. | userState _ | halted _ => "eval"
  | lexed _ | parsed _ | generated .. | executed _ | failed _ => "compile"

/-- A word with its name, as the log shows it. -/
def renderWord (entry : String × Int64) : String :=
  entry.1 ++ "=" ++ Decimal.ofWord entry.2

/-- The text of the event. -/
def message : Event → String
  | token t => "token: " ++ t.render
  | tokensProduced count => "produced " ++ Decimal.ofNat count ++ " tokens"
  | lexed tokens => "lexing done: " ++ Decimal.ofNat tokens ++ " tokens"
  | statementsParsed count => "parsed " ++ Decimal.ofNat count ++ " top level statements"
  | parsed statements => "parsing done: " ++ Decimal.ofNat statements ++ " statements"
  | temporary name => "new temporary " ++ name
  | emitted i => i.render
  | codeGenerated code =>
    "generated code: [" ++ ", ".intercalate (code.toList.map Instruction.render) ++ "]"
  | generated instructions symbols =>
    "code generation done: " ++ Decimal.ofNat instructions ++ " instructions, "
      ++ Decimal.ofNat symbols ++ " symbols"
  | executing instructions => "executing " ++ Decimal.ofNat instructions ++ " instructions"
  | instruction pc i =>
    Text.padLeft 4 (Decimal.ofNat pc) ++ ": " ++ Text.padRight 8 i.mnemonic ++ " " ++ i.render
  | userState words => "state: [" ++ ", ".intercalate (words.map renderWord) ++ "]"
  | halted steps => "halted after " ++ Decimal.ofNat steps ++ " steps"
  | executed steps => "execution done in " ++ Decimal.ofNat steps ++ " steps"
  | failed message => "compilation failed: " ++ message

end Event

end ThreeAddress
