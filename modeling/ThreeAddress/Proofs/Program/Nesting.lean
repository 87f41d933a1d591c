import ThreeAddress.Proofs.Program.Completeness
import ThreeAddress.Proofs.Program.Height

/-!
# What nests too deep is refused

The depth of nesting that a derivation tells is the one that the rules count: where it exceeds the
budget, the rules fail, and for that reason. The budget is used up inside of the derived tokens, so what
comes behind them plays no part in it.

## Main definitions

* `Reply.IsTooDeep` says that a rule failed because its budget was used up.
* `Expr.Derives.isRefused`: expressions that nest deeper than the budget are refused.
-/

namespace ThreeAddress

open Rule

/-- The rule failed because the program nests too deep. -/
def Reply.IsTooDeep {α : Type} : Reply α → Prop
  | .ok _ _ => False
  | .fail error _ _ => ∃ line, error.kind = .nestingTooDeep line

theorem Reply.IsTooDeep.of_retells {α : Type} {reply told : Reply α} (h : reply.IsTooDeep)
    (retells : reply.Retells told) : told.IsTooDeep := by
  cases retells with
  | ok => exact h
  | fail alike =>
    obtain ⟨line, deep⟩ := h
    exact ⟨line, by rw [← alike, deep]⟩

namespace Rule

variable {α β : Type} {rule : Rule α} {site : Site} {ts rest : List Token}

theorem isTooDeep_tooDeep : (tooDeep site ts : Reply α).IsTooDeep :=
  ⟨site.lineOf ts, rfl⟩

theorem isTooDeep_bind {next : α → Rule β} (h : (rule site ts).IsTooDeep) :
    ((rule >>= next) site ts).IsTooDeep := by
  rw [bind_apply]
  generalize rule site ts = reply at h ⊢
  cases reply with
  | ok => exact h.elim
  | fail => exact h

/-- Behind a rule that succeeds, the next one decides. -/
theorem isTooDeep_bind_of_ok {next : α → Rule β} {a : α} (read : rule site ts = .ok a rest)
    (h : (next a site rest).IsTooDeep) : ((rule >>= next) site ts).IsTooDeep := by
  rwa [bind_apply, read]

theorem isTooDeep_within {context : String} (h : (rule site ts).IsTooDeep) :
    (within context rule site ts).IsTooDeep :=
  h.of_retells (retells_within context rule site ts)

theorem isTooDeep_link (h : (rule site ts).IsTooDeep) : (link rule site ts).IsTooDeep :=
  h.of_retells (retells_link rule site ts)

theorem isTooDeep_contain (h : (rule site ts).IsTooDeep) : (contain rule site ts).IsTooDeep :=
  h.of_retells (retells_contain rule site ts)

end Rule

namespace Expr

variable {site : Site} {ts rest : List Token} {e lhs : Expr} {level : Level} {budget k n : Nat}

/-- An operator of the level does not bind more tightly than the level. -/
theorem endsBefore_of_level {op : Operator} {t : Token} {later : List Token} (sign : t.kind = op.token) :
    EndsBefore op.level.rank (t :: later) := by
  intro other same
  rw [kindOf_cons, sign] at same
  exact Nat.le_of_eq (by rw [Operator.token_injective same])

/-- At an operator without budget, the rest of a chain is refused; with a budget, what comes behind the
operator decides. -/
theorem isTooDeep_links {op : Operator} {t : Token} {later : List Token} (sign : t.kind = op.token)
    (h : ∀ b, budget = b + 1 →
      ((operand b op.level >>= fun rhs => links b op.level (.binary op lhs rhs)) site later).IsTooDeep) :
    (links budget op.level lhs site (t :: later)).IsTooDeep := by
  rw [links, peek_bind, kindOf_cons, Level.operator?_eq_some_iff.mpr ⟨rfl, sign.symm⟩]
  cases budget with
  | zero => exact isTooDeep_tooDeep
  | succ b => exact isTooDeep_link (h b rfl)

/-- If the rest of a chain is refused behind a beginning that is read, all of it is. -/
theorem Derives.isTooDeep_chain (h : Derives (.chain level k) ts e n) (le : n ≤ budget)
    (ends : EndsBefore level.rank rest) (refused : (links (budget - k) level e site rest).IsTooDeep) :
    (chain budget level site (ts ++ rest)).IsTooDeep := by
  induction k generalizing ts e n rest with
  | zero =>
    cases h with
    | first inside =>
      rw [chain]
      exact isTooDeep_bind_of_ok (inside.isRead budget le site rest ends) refused
  | succ k ih =>
    cases h with
    | @next _ _ n m ts us lhs rhs t op before binds sign inside =>
      subst binds
      rw [List.append_assoc]
      refine ih before (by omega) (endsBefore_of_level sign) (isTooDeep_links sign fun b one => ?_)
      have right := inside.isRead b (by omega) site rest ends
      refine isTooDeep_bind_of_ok right ?_
      rwa [show b = budget - (k + 1) by omega]

/-- What it means that a part of the grammar is refused. -/
def IsRefused (ts : List Token) (budget : Nat) : Part → Prop
  | .primary => ∀ site rest, (primary budget site (ts ++ rest)).IsTooDeep
  | .operand level => ∀ site rest, (operand budget level site (ts ++ rest)).IsTooDeep
  | .chain level _ => ∀ site rest, (chain budget level site (ts ++ rest)).IsTooDeep
  | .whole => ∀ site rest, (chain budget .comparison site (ts ++ rest)).IsTooDeep

/-- Derivations that nest deeper than the budget are refused. -/
theorem Derives.isRefused {part : Part} (h : Derives part ts e n) (budget : Nat) (lt : budget < n) :
    IsRefused ts budget part := by
  induction h generalizing budget with
  | number | name => omega
  | @parens opening closing ts e n opens inside closes ih =>
    intro site rest
    rw [primary]
    refine isTooDeep_within ?_
    rw [List.cons_append, List.append_assoc, peek_bind, kindOf_cons, opens]
    cases budget with
    | zero => exact isTooDeep_bind_of_ok rfl (isTooDeep_bind isTooDeep_tooDeep)
    | succ b =>
      have within := ih b (by omega) site ([closing] ++ rest)
      exact isTooDeep_bind_of_ok rfl (isTooDeep_bind (isTooDeep_contain within))
  | factor inside ih | term inside ih | comparison inside ih =>
    intro site rest
    rw [operand]
    exact ih budget lt site rest
  | first inside ih =>
    intro site rest
    rw [chain]
    exact isTooDeep_bind (ih budget lt site rest)
  | @next level k n m ts us lhs rhs t op before binds sign inside ihl ihr =>
    intro site rest
    subst binds
    rw [List.append_assoc]
    by_cases deep : budget < n
    · exact ihl budget deep site _
    · -- the beginning is read, and then there is too little budget left for the last operand
      refine before.isTooDeep_chain (by omega) (endsBefore_of_level sign)
        (isTooDeep_links sign fun b one => ?_)
      exact isTooDeep_bind (ihr b (by omega) site rest)
  | whole inside ih => exact fun site rest => ih budget lt site rest

/-- A whole expression that nests too deep is refused, whatever comes behind it. -/
theorem Derives.refuse_whole (h : Derives .whole ts e n) (lt : budget < n) (site : Site)
    (rest : List Token) : (Expr.rule budget site (ts ++ rest)).IsTooDeep :=
  isTooDeep_within (h.isRefused budget lt site rest)

end Expr

end ThreeAddress
