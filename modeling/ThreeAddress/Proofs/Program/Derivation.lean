import ThreeAddress.Proofs.Program.Grammar
import ThreeAddress.Proofs.Text.Decimal

/-!
# Derivations

What it means that tokens derive a program, told without a parser. A chain of operators of one
level is derived from the left: all but the last operator first. An `else` belongs to the nearest
`if` before it that still lacks one, so the statement between an `if` and its `else` must not end
with an `if` that lacks one.

A derivation also tells how deep it nests. A statement and a parenthesis go one level down; behind
the operator number `k` of a chain everything lies `k` levels deeper until the chain ends.

## Main definitions

* `Expr.Derives` says which expression tokens derive, as which part of the grammar, and how deep.
* `Stmt.Derives` and `Stmt.DerivesAll` say it of statements.
* `Stmt.endsOpen` tells the statements that end with an `if` that lacks an `else`.
-/

namespace ThreeAddress

/-! ## Expressions -/

/-- The parts that expressions are made of: whole expressions, chains of operators of one level by
their number of operators, what such operators combine, and what is no chain at all. -/
inductive Expr.Part where
  | whole
  | chain (level : Level) (operators : Nat)
  | operand (level : Level)
  | primary

/-- The tokens derive the expression as a part of the grammar, with the given depth of nesting. -/
inductive Expr.Derives : Expr.Part → List Token → Expr → Nat → Prop where
  | number {t : Token} {word : Int64} (kind : t.kind = .number)
      (numeral : Decimal.IsNumeral t.text.toList word.toInt) : Derives .primary [t] (.number word) 0
  | name {t : Token} (kind : t.kind = .identifier) : Derives .primary [t] (.name t.lexeme) 0
  | parens {opening closing : Token} {ts : List Token} {e : Expr} {n : Nat}
      (opens : opening.kind = .openParen) (inside : Derives .whole ts e n)
      (closes : closing.kind = .closeParen) :
      Derives .primary (opening :: (ts ++ [closing])) e (n + 1)
  | factor {ts : List Token} {e : Expr} {n : Nat} (inside : Derives .primary ts e n) :
      Derives (.operand .factor) ts e n
  | term {ts : List Token} {e : Expr} {k n : Nat} (inside : Derives (.chain .factor k) ts e n) :
      Derives (.operand .term) ts e n
  | comparison {ts : List Token} {e : Expr} {k n : Nat} (inside : Derives (.chain .term k) ts e n) :
      Derives (.operand .comparison) ts e n
  | first {level : Level} {ts : List Token} {e : Expr} {n : Nat}
      (operand : Derives (.operand level) ts e n) : Derives (.chain level 0) ts e n
  | next {level : Level} {k n m : Nat} {ts us : List Token} {lhs rhs : Expr} {t : Token} {op : Operator}
      (before : Derives (.chain level k) ts lhs n) (binds : op.level = level) (sign : t.kind = op.token)
      (operand : Derives (.operand level) us rhs m) :
      Derives (.chain level (k + 1)) (ts ++ t :: us) (.binary op lhs rhs) (max n (k + 1 + m))
  | whole {ts : List Token} {e : Expr} {k n : Nat} (inside : Derives (.chain .comparison k) ts e n) :
      Derives .whole ts e n

/-! ## Statements -/

/-- Whether the statement ends with an `if` that lacks an `else`. -/
def Stmt.endsOpen : Stmt → Bool
  | .ifThen .. => true
  | .ifElse _ _ otherwise _ => otherwise.endsOpen
  | .loop _ body _ => body.endsOpen
  | .declare .. | .assign .. | .block _ => false

mutual

/-- The tokens derive the statement, with the given depth of nesting. -/
inductive Stmt.Derives : List Token → Stmt → Nat → Prop where
  | declare {word name equals semicolon : Token} {ts : List Token} {e : Expr} {n : Nat}
      (declares : word.kind = .keyword .kwVar) (named : name.kind = .identifier)
      (assigns : equals.kind = .operator .equals false) (value : Expr.Derives .whole ts e n)
      (ends : semicolon.kind = .semicolon) :
      Derives (word :: name :: equals :: (ts ++ [semicolon])) (.declare name.lexeme e word.line) (n + 1)
  | assign {name equals semicolon : Token} {ts : List Token} {e : Expr} {n : Nat}
      (named : name.kind = .identifier) (assigns : equals.kind = .operator .equals false)
      (value : Expr.Derives .whole ts e n) (ends : semicolon.kind = .semicolon) :
      Derives (name :: equals :: (ts ++ [semicolon])) (.assign name.lexeme e name.line) (n + 1)
  | ifThen {word opening closing : Token} {ts us : List Token} {condition : Expr} {body : Stmt}
      {n m : Nat} (asks : word.kind = .keyword .kwIf) (opens : opening.kind = .openParen)
      (tests : Expr.Derives .whole ts condition n) (closes : closing.kind = .closeParen)
      (inside : Stmt.Derives us body m) :
      Derives (word :: opening :: (ts ++ closing :: us)) (.ifThen condition body word.line)
        (max n m + 1)
  | ifElse {word opening closing other : Token} {ts us vs : List Token} {condition : Expr}
      {body otherwise : Stmt} {n m l : Nat} (asks : word.kind = .keyword .kwIf)
      (opens : opening.kind = .openParen) (tests : Expr.Derives .whole ts condition n)
      (closes : closing.kind = .closeParen) (inside : Stmt.Derives us body m)
      (nearest : body.endsOpen = false) (turns : other.kind = .keyword .kwElse)
      (elsewhere : Stmt.Derives vs otherwise l) :
      Derives (word :: opening :: (ts ++ closing :: (us ++ other :: vs)))
        (.ifElse condition body otherwise word.line) (max n (max m l) + 1)
  | loop {word opening closing : Token} {ts us : List Token} {condition : Expr} {body : Stmt}
      {n m : Nat} (repeats : word.kind = .keyword .kwWhile) (opens : opening.kind = .openParen)
      (tests : Expr.Derives .whole ts condition n) (closes : closing.kind = .closeParen)
      (inside : Stmt.Derives us body m) :
      Derives (word :: opening :: (ts ++ closing :: us)) (.loop condition body word.line) (max n m + 1)
  | block {opening closing : Token} {ts : List Token} {body : List Stmt} {n : Nat}
      (opens : opening.kind = .openBrace) (inside : Stmt.DerivesAll ts body n)
      (closes : closing.kind = .closeBrace) :
      Derives (opening :: (ts ++ [closing])) (.block body) (n + 1)

/-- The tokens derive the statements one after another, with the given depth of nesting. -/
inductive Stmt.DerivesAll : List Token → List Stmt → Nat → Prop where
  | nil : DerivesAll [] [] 0
  | cons {ts us : List Token} {s : Stmt} {rest : List Stmt} {n m : Nat} (first : Stmt.Derives ts s n)
      (others : Stmt.DerivesAll us rest m) : DerivesAll (ts ++ us) (s :: rest) (max n m)

end

/-! ## The tokens of derivations -/

/-- No expression is derived from the end of the input. -/
theorem Expr.Derives.kind_ne_eof {part : Part} {ts : List Token} {e : Expr} {n : Nat}
    (h : Derives part ts e n) : ∀ t ∈ ts, t.kind ≠ .eof := by
  induction h with
  | number kind | name kind => simp [kind]
  | parens opens _ closes ih =>
    simp only [List.forall_mem_cons, List.forall_mem_append, opens, closes]
    exact ⟨nofun, ih, nofun, nofun⟩
  | factor _ ih | term _ ih | comparison _ ih | first _ ih | whole _ ih => exact ih
  | next _ _ sign _ ihl ihr =>
    simp only [List.forall_mem_cons, List.forall_mem_append, sign]
    exact ⟨ihl, Operator.token_ne_eof _, ihr⟩

mutual

/-- No statement is derived from the end of the input. -/
theorem Stmt.Derives.kind_ne_eof {ts : List Token} {s : Stmt} {n : Nat} (h : Stmt.Derives ts s n) :
    ∀ t ∈ ts, t.kind ≠ .eof := by
  cases h with
  | declare declares named assigns value ends =>
    simp only [List.forall_mem_cons, List.forall_mem_append, declares, named, assigns, ends]
    exact ⟨nofun, nofun, nofun, value.kind_ne_eof, nofun, nofun⟩
  | assign named assigns value ends =>
    simp only [List.forall_mem_cons, List.forall_mem_append, named, assigns, ends]
    exact ⟨nofun, nofun, value.kind_ne_eof, nofun, nofun⟩
  | ifThen starts opens tests closes inside | loop starts opens tests closes inside =>
    simp only [List.forall_mem_cons, List.forall_mem_append, starts, opens, closes]
    exact ⟨nofun, nofun, tests.kind_ne_eof, nofun, inside.kind_ne_eof⟩
  | ifElse asks opens tests closes inside _ turns elsewhere =>
    simp only [List.forall_mem_cons, List.forall_mem_append, asks, opens, closes, turns]
    exact ⟨nofun, nofun, tests.kind_ne_eof, nofun, inside.kind_ne_eof, nofun, elsewhere.kind_ne_eof⟩
  | block opens inside closes =>
    simp only [List.forall_mem_cons, List.forall_mem_append, opens, closes]
    exact ⟨nofun, inside.kind_ne_eof, nofun, nofun⟩

theorem Stmt.DerivesAll.kind_ne_eof {ts : List Token} {body : List Stmt} {n : Nat}
    (h : Stmt.DerivesAll ts body n) : ∀ t ∈ ts, t.kind ≠ .eof := by
  cases h with
  | nil => simp
  | cons first others =>
    simp only [List.forall_mem_append]
    exact ⟨first.kind_ne_eof, others.kind_ne_eof⟩

end

end ThreeAddress
