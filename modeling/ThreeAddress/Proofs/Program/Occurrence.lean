import ThreeAddress.Program.Basic
import ThreeAddress.Token.Munch

/-!
# Where names occur

The names of a program in the order of its text, each with what it is there for, and the measures
of a program that the order of its instructions depends on: how many operators and how many labels
it needs.

## Main definitions

* `Occurrence` is a name with its role; `Expr.occurrences` and `Stmt.occurrences` list them.
* `Program.names` are the texts of all names, `Program.declaredNames` those of the declared ones.
* `isIdentifier` tells the texts that a name of a source can have.
* `Expr.operators`, `Stmt.operators` and `Stmt.labels` count.
-/

namespace ThreeAddress

/-- A letter or an underscore, with letters, digits and underscores after it. -/
def isIdentifier (text : String) : Bool :=
  match text.toList with
  | [] => false
  | c :: rest => startsName c && rest.all continuesName

/-- What a name is there for. -/
inductive Role where
  | declared
  | assigned
  | used
deriving DecidableEq

/-- A name at one place of a program. -/
structure Occurrence where
  role : Role
  name : Lexeme
deriving DecidableEq

/-- The names of an expression; they are all used. -/
def Expr.occurrences : Expr → List Occurrence
  | .number _ => []
  | .name lexeme => [⟨.used, lexeme⟩]
  | .binary _ lhs rhs => lhs.occurrences ++ rhs.occurrences

mutual

/-- The names of a statement, in the order of its text. -/
def Stmt.occurrences : Stmt → List Occurrence
  | .declare name init _ => ⟨.declared, name⟩ :: init.occurrences
  | .assign name value _ => ⟨.assigned, name⟩ :: value.occurrences
  | .ifThen condition body _ => condition.occurrences ++ body.occurrences
  | .ifElse condition body otherwise _ =>
    condition.occurrences ++ body.occurrences ++ otherwise.occurrences
  | .loop condition body _ => condition.occurrences ++ body.occurrences
  | .block body => Stmt.occurrencesAll body

/-- The names of statements one after another. -/
def Stmt.occurrencesAll : List Stmt → List Occurrence
  | [] => []
  | s :: rest => s.occurrences ++ Stmt.occurrencesAll rest

end

/-- The text of the name that occurs. -/
def Occurrence.text (o : Occurrence) : String :=
  o.name.text

/-- The names that a program mentions, in the order of its text. -/
def Program.names (program : Program) : List String :=
  (Stmt.occurrencesAll program).map Occurrence.text

/-- The names that a program declares, in the order of its text. -/
def Program.declaredNames (program : Program) : List String :=
  ((Stmt.occurrencesAll program).filter fun o => o.role = .declared).map Occurrence.text

/-- Declared names are mentioned. -/
theorem Program.declaredNames_subset (program : Program) :
    program.declaredNames ⊆ program.names := by
  intro name h
  obtain ⟨o, ho, rfl⟩ := List.mem_map.mp h
  exact List.mem_map.mpr ⟨o, (List.mem_filter.mp ho).1, rfl⟩

/-- The number of operators of an expression; each needs a temporary. -/
def Expr.operators : Expr → Nat
  | .number _ | .name _ => 0
  | .binary _ lhs rhs => lhs.operators + rhs.operators + 1

mutual

/-- The number of operators of a statement. -/
def Stmt.operators : Stmt → Nat
  | .declare _ e _ | .assign _ e _ => e.operators
  | .ifThen condition body _ | .loop condition body _ => condition.operators + body.operators
  | .ifElse condition body otherwise _ =>
    condition.operators + body.operators + otherwise.operators
  | .block body => Stmt.operatorsAll body

/-- The number of operators of statements one after another. -/
def Stmt.operatorsAll : List Stmt → Nat
  | [] => 0
  | s :: rest => s.operators + Stmt.operatorsAll rest

end

mutual

/-- The number of labels that a statement needs: one for a condition, a second one for an
alternative, and two for a loop. -/
def Stmt.labels : Stmt → Nat
  | .declare .. | .assign .. => 0
  | .ifThen _ body _ => 1 + body.labels
  | .ifElse _ body otherwise _ => 2 + body.labels + otherwise.labels
  | .loop _ body _ => 2 + body.labels
  | .block body => Stmt.labelsAll body

/-- The number of labels that statements need one after another. -/
def Stmt.labelsAll : List Stmt → Nat
  | [] => 0
  | s :: rest => s.labels + Stmt.labelsAll rest

end

end ThreeAddress
