import ThreeAddress.Compilation.Basic
import ThreeAddress.Machine.Log

/-!
# The log of a compilation

Everything that a compilation tells, in order: each token, each instruction as it is emitted, each step
of the run, and a summary at the end of each phase. A failure is told last.

## Main definitions

* `Compilation.log` is what the making of a compilation tells.
-/

namespace ThreeAddress

/-- What is told of an instruction that is emitted: the result of an operator is a new temporary. -/
def Instruction.emissionLog : Instruction → List Event
  | binary op lhs rhs result => [.temporary result, .emitted (.binary op lhs rhs result)]
  | other => [.emitted other]

namespace Compilation

/-- What the first phase tells. -/
def lexLog (source : Source) (c : Compilation) : List Event :=
  (Cursor.ofSource source).scan.1.map .token
    ++ (match c.tokens with
      | some tokens => [.tokensProduced tokens.length, .lexed tokens.length]
      | none => [])

/-- What the second phase tells. -/
def parseLog (c : Compilation) : List Event :=
  match c.program with
  | some program => [.statementsParsed program.length, .parsed program.length]
  | none => []

/-- What the third phase tells, where `t` is what it made. -/
def loweringLog (t : Lowering) (c : Compilation) : List Event :=
  t.code.toList.flatMap Instruction.emissionLog
    ++ (match c.code with
      | some code => [.codeGenerated code, .generated code.size t.symbols.size]
      | none => [])

/-- What the last phase tells, where `t` is what the third one made. -/
def runLog (fuel : Nat) (t : Lowering) (c : Compilation) : List Event :=
  match c.code, c.failure with
  | none, _ | some _, some (.label _) => []
  | some code, _ =>
    .executing code.size :: (Machine.load code t.symbols).runLog fuel (.start t.symbols)
      ++ (match c.execution with
        | some execution => [.executed execution.steps]
        | none => [])

/-- What the making of the compilation tells, for at most `fuel` instructions of its run. -/
def log (fuel : Nat) (source : Source) (c : Compilation) : List Event :=
  c.lexLog source ++ c.parseLog
    ++ (match c.program with
      | some program =>
        let t := (program.lower source .empty).2
        c.loweringLog t ++ c.runLog fuel t
      | none => [])
    ++ (match c.failure with
      | some failure => [.failed failure.message]
      | none => [])

end Compilation

end ThreeAddress
