import ThreeAddress.Proofs.Program.Occurrence
import Mathlib.Logic.Function.Basic

/-!
# What programs mean

The meaning of a program, told of its tree: no instructions, labels or temporaries occur in it. A
program works on words that belong to names; every name begins with zero. A declaration is an
assignment, and a block is no scope of its own.

Fuel is spent by loops only: with fuel `n` no loop tests its condition more often. A meaning that
is out of fuel for every amount of it is that of a program that does not end.

## Main definitions

* `Operator.meaning?` is the value of an operator, told of the integers of its operands.
* `Expr.eval` evaluates an expression, the left operand before the right one.
* `Outcome` is what a statement comes to, with the cost of getting there.
* `Stmt.exec` and `Program.exec` are the meanings of statements and of programs.
-/

namespace ThreeAddress

/-- The words that belong to the names. -/
abbrev Words := String → Int64

/-- The value of an operator, told of the integers that the words stand for. A result outside of
the words wraps around; a quotient is rounded down, and there is none for a zero divisor; a
comparison is one or zero. -/
def Operator.meaning? (op : Operator) (lhs rhs : Int64) : Option Int64 :=
  let a := lhs.toInt
  let b := rhs.toInt
  match op with
  | add => some (.ofInt (a + b))
  | sub => some (.ofInt (a - b))
  | mul => some (.ofInt (a * b))
  | div => if b = 0 then none else some (.ofInt (a.fdiv b))
  | eq => some (if a = b then 1 else 0)
  | ne => some (if a = b then 0 else 1)
  | lt => some (if a < b then 1 else 0)
  | gt => some (if b < a then 1 else 0)
  | le => some (if a ≤ b then 1 else 0)
  | ge => some (if b ≤ a then 1 else 0)

/-- The value of an expression; none if it divides by zero. -/
def Expr.eval (words : Words) : Expr → Option Int64
  | .number value => some value
  | .name lexeme => some (words lexeme.text)
  | .binary op lhs rhs => do
    let a ← lhs.eval words
    let b ← rhs.eval words
    op.meaning? a b

/-- What a statement comes to: it ends with certain words at a certain cost, or it divides by
zero, or it is not done within its fuel. -/
inductive Outcome where
  | done (words : Words) (cost : Nat)
  | divisionByZero
  | outOfFuel

namespace Outcome

/-- The same outcome at a higher cost. -/
def charge (cost : Nat) : Outcome → Outcome
  | done words spent => done words (cost + spent)
  | divisionByZero => divisionByZero
  | outOfFuel => outOfFuel

/-- Goes on with the words of an outcome, and adds the costs. -/
def andThen (outcome : Outcome) (next : Words → Outcome) : Outcome :=
  match outcome with
  | done words cost => (next words).charge cost
  | divisionByZero => divisionByZero
  | outOfFuel => outOfFuel

/-- Goes on with a value, unless there is none. -/
def withValue (value : Option Int64) (next : Int64 → Outcome) : Outcome :=
  match value with
  | some word => next word
  | none => divisionByZero

/-- Repeats `body` as long as `condition` is not zero. A round costs a test and a jump back, the
last test finds the way out. -/
def loop (condition : Expr) (body : Words → Outcome) : Nat → Words → Outcome
  | 0, _ => outOfFuel
  | fuel + 1, words =>
    withValue (condition.eval words) fun word =>
      if word = 0 then done words (condition.operators + 3)
      else ((body words).andThen (loop condition body fuel)).charge (condition.operators + 3)

end Outcome

mutual

/-- The meaning of a statement. An operator costs one and a stored word one; a condition costs two
more, and three more if it has an alternative. -/
def Stmt.exec (fuel : Nat) : Stmt → Words → Outcome
  | .declare name e _, words | .assign name e _, words =>
    .withValue (e.eval words) fun word =>
      .done (Function.update words name.text word) (e.operators + 1)
  | .ifThen condition body _, words =>
    .withValue (condition.eval words) fun word =>
      (if word = 0 then .done words 0 else body.exec fuel words).charge (condition.operators + 2)
  | .ifElse condition body otherwise _, words =>
    .withValue (condition.eval words) fun word =>
      (if word = 0 then otherwise.exec fuel words else body.exec fuel words).charge
        (condition.operators + 3)
  | .loop condition body _, words => .loop condition (body.exec fuel) fuel words
  | .block body, words => Stmt.execAll fuel body words

/-- The meaning of statements one after another. -/
def Stmt.execAll (fuel : Nat) : List Stmt → Words → Outcome
  | [], words => .done words 0
  | s :: rest, words => (s.exec fuel words).andThen (Stmt.execAll fuel rest)

end

/-- The meaning of a program: every name begins with zero. -/
def Program.exec (fuel : Nat) (program : Program) : Outcome :=
  Stmt.execAll fuel program fun _ => 0

namespace Program

/-- The program ends with these words. -/
def Ends (program : Program) (words : Words) : Prop :=
  ∃ fuel cost, program.exec fuel = .done words cost

/-- The program comes to a division by zero. -/
def Divides (program : Program) : Prop :=
  ∃ fuel, program.exec fuel = .divisionByZero

/-- The program never ends. -/
def Diverges (program : Program) : Prop :=
  ∀ fuel, program.exec fuel = .outOfFuel

end Program

/-! ## More fuel -/

/-- The second outcome is what the first one comes to with more fuel. -/
def Outcome.Within (o o' : Outcome) : Prop :=
  o = .outOfFuel ∨ o = o'

namespace Outcome.Within

variable {o o' : Outcome}

theorem refl (o : Outcome) : o.Within o :=
  .inr rfl

theorem charge (h : o.Within o') (k : Nat) : (o.charge k).Within (o'.charge k) := by
  rcases h with rfl | rfl
  · exact .inl rfl
  · exact refl _

theorem andThen {next next' : Words → Outcome} (h : o.Within o')
    (goOn : ∀ words, (next words).Within (next' words)) :
    (o.andThen next).Within (o'.andThen next') := by
  rcases h with rfl | rfl
  · exact .inl rfl
  · cases o with
    | done words cost => exact (goOn words).charge cost
    | divisionByZero | outOfFuel => exact refl _

theorem withValue {next next' : Int64 → Outcome} (value : Option Int64)
    (goOn : ∀ word, (next word).Within (next' word)) :
    (Outcome.withValue value next).Within (Outcome.withValue value next') := by
  cases value with
  | none => exact refl _
  | some word => exact goOn word

theorem loop {body body' : Words → Outcome} (condition : Expr)
    (inside : ∀ words, (body words).Within (body' words)) {fuel more : Nat} (le : fuel ≤ more)
    (words : Words) :
    (Outcome.loop condition body fuel words).Within (Outcome.loop condition body' more words) := by
  induction fuel generalizing more words with
  | zero => exact .inl rfl
  | succ fuel ih =>
    obtain ⟨rest, rfl⟩ := Nat.exists_eq_add_of_lt (Nat.lt_of_succ_le le)
    refine withValue _ fun word => ?_
    by_cases zero : word = 0
    · simp only [if_pos zero]
      exact refl _
    · simp only [if_neg zero]
      exact ((inside words).andThen (ih (by omega))).charge _

end Outcome.Within

mutual

/-- More fuel does not change what a statement has come to. -/
theorem Stmt.exec_within {fuel more : Nat} (le : fuel ≤ more) (s : Stmt) (words : Words) :
    (s.exec fuel words).Within (s.exec more words) := by
  match s with
  | .declare _ _ _ | .assign _ _ _ =>
    rw [Stmt.exec, Stmt.exec]
    exact .refl _
  | .ifThen condition body _ =>
    rw [Stmt.exec, Stmt.exec]
    refine .withValue _ fun word => ?_
    split
    · exact .refl _
    · exact (Stmt.exec_within le body words).charge _
  | .ifElse condition body otherwise _ =>
    rw [Stmt.exec, Stmt.exec]
    refine .withValue _ fun word => ?_
    split
    · exact (Stmt.exec_within le otherwise words).charge _
    · exact (Stmt.exec_within le body words).charge _
  | .loop condition body _ =>
    rw [Stmt.exec, Stmt.exec]
    exact .loop condition (fun words => Stmt.exec_within le body words) le words
  | .block body => exact Stmt.execAll_within le body words

theorem Stmt.execAll_within {fuel more : Nat} (le : fuel ≤ more) (body : List Stmt) (words : Words) :
    (Stmt.execAll fuel body words).Within (Stmt.execAll more body words) := by
  match body with
  | [] => exact .refl _
  | s :: rest =>
    rw [Stmt.execAll, Stmt.execAll]
    exact (Stmt.exec_within le s words).andThen fun words => Stmt.execAll_within le rest words

end

namespace Program

variable {program : Program}

/-- More fuel does not change what a program has come to. -/
theorem exec_mono {fuel more : Nat} (le : fuel ≤ more) (h : program.exec fuel ≠ .outOfFuel) :
    program.exec more = program.exec fuel := by
  rcases Stmt.execAll_within le program fun _ => 0 with out | same
  · exact absurd out h
  · exact same.symm

/-- Two amounts of fuel that are both enough come to the same. -/
theorem exec_unique {fuel other : Nat} {o o' : Outcome} (h : program.exec fuel = o)
    (h' : program.exec other = o') (enough : o ≠ .outOfFuel) (enough' : o' ≠ .outOfFuel) : o = o' := by
  subst h h'
  rw [← exec_mono (Nat.le_max_left fuel other) enough, exec_mono (Nat.le_max_right fuel other) enough']

/-- A program ends with certain words only. -/
theorem Ends.unique {words words' : Words} (h : program.Ends words) (h' : program.Ends words') :
    words = words' := by
  obtain ⟨fuel, cost, done⟩ := h
  obtain ⟨fuel', cost', done'⟩ := h'
  exact (Outcome.done.inj (exec_unique done done' nofun nofun)).1

/-- A program that ends does not divide by zero. -/
theorem Ends.not_divides {words : Words} (h : program.Ends words) : ¬program.Divides := by
  obtain ⟨fuel, cost, done⟩ := h
  rintro ⟨fuel', divides⟩
  cases exec_unique done divides nofun nofun

/-- A program ends, divides by zero, or never ends. -/
theorem ends_or_divides_or_diverges (program : Program) :
    (∃ words, program.Ends words) ∨ program.Divides ∨ program.Diverges := by
  by_cases diverges : program.Diverges
  · exact .inr (.inr diverges)
  · obtain ⟨fuel, h⟩ := not_forall.mp diverges
    cases result : program.exec fuel with
    | done words cost => exact .inl ⟨words, fuel, cost, result⟩
    | divisionByZero => exact .inr (.inl ⟨fuel, result⟩)
    | outOfFuel => exact absurd result h

end Program

end ThreeAddress
