import ThreeAddress.Proofs.Program.Derivation

/-!
# Nesting and height

How high the tree of a program can be whose tokens nest to a given depth. The two are not the
same. A chain of operators goes one level down with each of them, but its levels are given back
when it ends, and all of the chain becomes the first operand of a chain of the next looser level,
which goes down anew; so does a parenthesis that is the first operand of a chain. The height is
quadratic in the nesting.

## Main definitions

* `Expr.height`, `Stmt.height` and `Program.height` count the statements and operators on a path.
* `tallest n` bounds what nests `n` levels deep and is no chain.
* `Expr.Derives.height_le` and `Stmt.DerivesAll.heightAll_le` are the bounds.
* `Stmt.DerivesAll.heightAll_le_iff`: only expressions make a program too high.
-/

namespace ThreeAddress

/-! ## Heights -/

/-- The largest number of operators on a path from the root. -/
def Expr.height : Expr → Nat
  | .number _ | .name _ => 0
  | .binary _ lhs rhs => 1 + max lhs.height rhs.height

mutual

/-- The largest number of statements and operators on a path from the root. -/
def Stmt.height : Stmt → Nat
  | .declare _ e _ | .assign _ e _ => 1 + e.height
  | .ifThen condition body _ | .loop condition body _ => 1 + max condition.height body.height
  | .ifElse condition body otherwise _ => 1 + max condition.height (max body.height otherwise.height)
  | .block body => 1 + Stmt.heightAll body

/-- The largest height of the statements. -/
def Stmt.heightAll : List Stmt → Nat
  | [] => 0
  | s :: rest => max s.height (Stmt.heightAll rest)

end

mutual

/-- The expressions of a statement, each with the number of statements around it. -/
def Stmt.expressions (around : Nat) : Stmt → List (Nat × Expr)
  | .declare _ e _ | .assign _ e _ => [(around + 1, e)]
  | .ifThen condition body _ | .loop condition body _ =>
    (around + 1, condition) :: Stmt.expressions (around + 1) body
  | .ifElse condition body otherwise _ =>
    (around + 1, condition) :: (Stmt.expressions (around + 1) body
      ++ Stmt.expressions (around + 1) otherwise)
  | .block body => Stmt.expressionsAll (around + 1) body

/-- The expressions of the statements, each with the number of statements around it. -/
def Stmt.expressionsAll (around : Nat) : List Stmt → List (Nat × Expr)
  | [] => []
  | s :: rest => Stmt.expressions around s ++ Stmt.expressionsAll around rest

end

/-- The height of the tree of a program. -/
def Program.height (program : Program) : Nat :=
  Stmt.heightAll program

/-! ## The bound -/

/-- The largest height of an expression that nests to a depth of `n` and is no chain: one in
parentheses whose three levels all have chains of `n - 1` operators. -/
def tallest : Nat → Nat
  | 0 => 0
  | n + 1 => tallest n + 3 * n

theorem tallest_mono {m n : Nat} (h : m ≤ n) : tallest m ≤ tallest n := by
  induction h with
  | refl => exact Nat.le_refl _
  | step _ ih => exact Nat.le_trans ih (Nat.le_add_right _ _)

/-- The largest height is quadratic in the nesting. -/
theorem two_mul_tallest (n : Nat) : 2 * tallest (n + 1) = 3 * (n * (n + 1)) := by
  induction n with
  | zero => rfl
  | succ n ih =>
    have step : tallest (n + 2) = tallest (n + 1) + 3 * (n + 1) := rfl
    have product : (n + 1) * (n + 2) = n * (n + 1) + 2 * (n + 1) := by
      rw [Nat.mul_comm, Nat.add_mul]
    rw [step, product]
    omega

namespace Expr

/-- The largest height of a part of the grammar that nests to a depth of `n`. -/
def Part.bound (n : Nat) : Part → Nat
  | .primary => tallest n
  | .operand level => tallest n + level.rank * n
  | .chain level k => tallest n + level.rank * n + k
  | .whole => tallest n + 3 * n

/-- A chain nests at least as deep as it has operators. -/
theorem Derives.operators_le {level : Level} {k n : Nat} {ts : List Token} {e : Expr}
    (h : Derives (.chain level k) ts e n) : k ≤ n := by
  cases h with
  | first => exact Nat.zero_le _
  | next => omega

/-- The height of an expression is bounded by its nesting. -/
theorem Derives.height_le {part : Part} {ts : List Token} {e : Expr} {n : Nat}
    (h : Derives part ts e n) : e.height ≤ part.bound n := by
  induction h with
  | number | name => exact Nat.zero_le _
  | parens _ _ _ ih => exact ih
  | factor _ ih => simpa [Part.bound, Level.rank] using ih
  | term inside ih =>
    have few := inside.operators_le
    simp only [Part.bound, Level.rank] at ih ⊢
    omega
  | comparison inside ih =>
    have few := inside.operators_le
    simp only [Part.bound, Level.rank] at ih ⊢
    omega
  | first _ ih => exact ih
  | @next level k n m ts us lhs rhs t op _ _ _ _ ihl ihr =>
    have deepest : n ≤ max n (k + 1 + m) ∧ m ≤ max n (k + 1 + m) := by omega
    have left := tallest_mono deepest.1
    have right := tallest_mono deepest.2
    have left' := Nat.mul_le_mul_left level.rank deepest.1
    have right' := Nat.mul_le_mul_left level.rank deepest.2
    simp only [Part.bound, Expr.height] at ihl ihr ⊢
    omega
  | whole inside ih =>
    have few := inside.operators_le
    simp only [Part.bound, Level.rank] at ih ⊢
    omega

end Expr

/-! ## Statements -/

mutual

/-- The height of a statement is bounded by its nesting. -/
theorem Stmt.Derives.height_le {ts : List Token} {s : Stmt} {n : Nat} (h : Stmt.Derives ts s n) :
    s.height ≤ tallest n + min n 1 := by
  cases h with
  | declare _ _ _ value _ | assign _ _ value _ =>
    have bound := value.height_le
    simp only [Expr.Part.bound] at bound
    simp only [Stmt.height, tallest]
    omega
  | @ifThen _ _ _ _ _ c body n m _ _ tests _ inside | @loop _ _ _ _ _ c body n m _ _ tests _ inside =>
    have test := tests.height_le
    have nested := inside.height_le
    have left := tallest_mono (Nat.le_max_left n m)
    have right := tallest_mono (Nat.le_max_right n m)
    simp only [Expr.Part.bound] at test
    simp only [Stmt.height, tallest]
    omega
  | @ifElse _ _ _ _ _ _ _ c body otherwise n m l _ _ tests _ inside _ _ elsewhere =>
    have test := tests.height_le
    have nested := inside.height_le
    have other := elsewhere.height_le
    have left := tallest_mono (Nat.le_max_left n (max m l))
    have middle : tallest m ≤ tallest (max n (max m l)) := tallest_mono (by omega)
    have right : tallest l ≤ tallest (max n (max m l)) := tallest_mono (by omega)
    simp only [Expr.Part.bound] at test
    simp only [Stmt.height, tallest]
    omega
  | block _ inside _ =>
    have nested := inside.heightAll_le
    simp only [Stmt.height, tallest]
    omega

theorem Stmt.DerivesAll.heightAll_le {ts : List Token} {body : List Stmt} {n : Nat}
    (h : Stmt.DerivesAll ts body n) : Stmt.heightAll body ≤ tallest n + min n 1 := by
  cases h with
  | nil => exact Nat.zero_le _
  | @cons _ _ _ _ n m first others =>
    have here := first.height_le
    have later := others.heightAll_le
    have left := tallest_mono (Nat.le_max_left n m)
    have right := tallest_mono (Nat.le_max_right n m)
    simp only [Stmt.heightAll]
    omega

end

/-! ## What is too high -/

mutual

/-- Where the nesting of a statement stays within a limit, its height does so just if each
expression is no higher than the statements around it leave room for. -/
theorem Stmt.Derives.height_le_iff {ts : List Token} {s : Stmt} {n : Nat}
    (h : Stmt.Derives ts s n) (around limit : Nat) (within : around + n ≤ limit) :
    around + s.height ≤ limit ↔ ∀ x ∈ s.expressions around, x.1 + x.2.height ≤ limit := by
  cases h with
  | declare _ _ _ _ _ | assign _ _ _ _ =>
    simp only [Stmt.height, Stmt.expressions, List.mem_singleton, forall_eq]
    omega
  | ifThen _ _ _ _ inside | loop _ _ _ _ inside =>
    have nested := inside.height_le_iff (around + 1) limit (by omega)
    simp only [Stmt.height, Stmt.expressions, List.forall_mem_cons, ← nested]
    omega
  | ifElse _ _ _ _ inside _ _ elsewhere =>
    have nested := inside.height_le_iff (around + 1) limit (by omega)
    have other := elsewhere.height_le_iff (around + 1) limit (by omega)
    simp only [Stmt.height, Stmt.expressions, List.forall_mem_cons, List.forall_mem_append, ← nested,
      ← other]
    omega
  | block _ inside _ =>
    have nested := inside.heightAll_le_iff (around + 1) limit (by omega)
    simp only [Stmt.height, Stmt.expressions, ← nested]
    omega

theorem Stmt.DerivesAll.heightAll_le_iff {ts : List Token} {body : List Stmt} {n : Nat}
    (h : Stmt.DerivesAll ts body n) (around limit : Nat) (within : around + n ≤ limit) :
    around + Stmt.heightAll body ≤ limit ↔
      ∀ x ∈ Stmt.expressionsAll around body, x.1 + x.2.height ≤ limit := by
  cases h with
  | nil => simpa [Stmt.heightAll, Stmt.expressionsAll] using within
  | cons first others =>
    have here := first.height_le_iff around limit (by omega)
    have later := others.heightAll_le_iff around limit (by omega)
    simp only [Stmt.heightAll, Stmt.expressionsAll, List.forall_mem_append, ← here, ← later]
    omega

end

end ThreeAddress
