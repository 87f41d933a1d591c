import ThreeAddress.Proofs.Program.Derivation

/-!
# What is read is derived

Every rule of the grammar reads tokens that derive the value it yields, and they nest no deeper
than the rule's budget allows. A chain is read from the left with the operators so far as its left
operand, so what is said of the rest of a chain is said beside a derivation of its beginning.

## Main definitions

* `Rule.Reads` says that a rule reads only tokens that derive its value.
* `Expr.reads_whole`, `Stmt.reads_rule` and `Program.reads_rule` say it of the rules of the
  grammar.
-/

namespace ThreeAddress

open Rule

/-- The rule reads tokens that derive the value it yields, with a depth of nesting within the
budget. -/
def Rule.Reads {α : Type} (rule : Rule α) (derives : List Token → α → Nat → Prop) (budget : Nat) :
    Prop :=
  ∀ ⦃site ts a rest⦄, rule site ts = .ok a rest →
    ∃ used n, ts = used ++ rest ∧ derives used a n ∧ n ≤ budget

/-! ## Expressions -/

namespace Expr

/-- The rest of a chain is read behind a beginning of `k` operators, each of which took one level
of the budget of the chain. -/
def ReadsLinks (budget : Nat) (level : Level) : Prop :=
  ∀ ⦃site lhs ts e rest⦄, links budget level lhs site ts = .ok e rest →
    ∀ ⦃before k n⦄, Derives (.chain level k) before lhs n → n ≤ k + budget →
      ∃ used k' n', ts = used ++ rest ∧ Derives (.chain level k') (before ++ used) e n' ∧ n' ≤ k + budget

variable {budget : Nat} {level : Level}

theorem reads_chain (operand : (Expr.operand budget level).Reads (Derives (.operand level)) budget)
    (links : ReadsLinks budget level) :
    (chain budget level).Reads (fun ts e n => ∃ k, Derives (.chain level k) ts e n) budget := by
  intro site ts e rest h
  obtain ⟨lhs, middle, hlhs, hlinks⟩ := chain_eq_ok.mp h
  obtain ⟨before, n, rfl, derived, le⟩ := operand hlhs
  obtain ⟨used, k, n', rfl, chained, le'⟩ := links hlinks (.first derived) (by omega)
  exact ⟨before ++ used, n', by simp, ⟨k, chained⟩, by omega⟩

/-- The rest of a chain is read, if it is with one level less. -/
theorem readsLinks (less : ∀ b < budget, (operand b level).Reads (Derives (.operand level)) b ∧
    ReadsLinks b level) : ReadsLinks budget level := by
  intro site lhs ts e rest h before k n derived le
  rcases links_eq_ok.mp h with ⟨-, rfl, rfl⟩ |
    ⟨b, op, t, later, rhs, middle, rfl, rfl, binds, sign, hrhs, hlinks⟩
  · exact ⟨[], k, n, rfl, by simpa using derived, le⟩
  · obtain ⟨reads, others⟩ := less b (Nat.lt_succ_self b)
    obtain ⟨us, m, rfl, derivedR, leR⟩ := reads hrhs
    obtain ⟨used, k', n', rfl, chained, le'⟩ :=
      others hlinks (derived.next binds sign derivedR) (by omega)
    exact ⟨t :: us ++ used, k', n', by simp, by simpa using chained, by omega⟩

/-- What is no chain is read, if expressions are with one level less. -/
theorem reads_primary (less : ∀ b < budget, (chain b .comparison).Reads (Derives .whole) b) :
    (primary budget).Reads (Derives .primary) budget := by
  intro site ts e rest h
  rcases primary_eq_ok.mp h with ⟨t, word, rfl, kind, read, rfl⟩ | ⟨t, rfl, kind, rfl⟩ |
    ⟨b, opening, later, closing, rfl, rfl, opens, inside, closes⟩
  · exact ⟨[t], 0, rfl, .number kind (Decimal.word?_eq_some_iff.mp read), Nat.zero_le _⟩
  · exact ⟨[t], 0, rfl, .name kind, Nat.zero_le _⟩
  · obtain ⟨used, n, rfl, derived, le⟩ := less b (Nat.lt_succ_self b) inside
    exact ⟨opening :: (used ++ [closing]), n + 1, by simp, .parens opens derived closes, by omega⟩

/-- What the operators of a level combine is read, if what is no chain and the rests of chains
are. -/
theorem reads_operand (primary : (primary budget).Reads (Derives .primary) budget)
    (links : ∀ level, ReadsLinks budget level) (level : Level) :
    (Expr.operand budget level).Reads (Derives (.operand level)) budget := by
  have factor : (Expr.operand budget .factor).Reads (Derives (.operand .factor)) budget := by
    intro site ts e rest h
    rw [Expr.operand] at h
    obtain ⟨used, n, here, derived, le⟩ := primary h
    exact ⟨used, n, here, .factor derived, le⟩
  have term : (Expr.operand budget .term).Reads (Derives (.operand .term)) budget := by
    intro site ts e rest h
    rw [Expr.operand] at h
    obtain ⟨used, n, here, ⟨k, derived⟩, le⟩ := reads_chain factor (links .factor) h
    exact ⟨used, n, here, .term derived, le⟩
  cases level with
  | factor => exact factor
  | term => exact term
  | comparison =>
    intro site ts e rest h
    rw [Expr.operand] at h
    obtain ⟨used, n, here, ⟨k, derived⟩, le⟩ := reads_chain term (links .term) h
    exact ⟨used, n, here, .comparison derived, le⟩

/-- An expression is read, if what it is made of is. -/
theorem reads_comparison
    (operand : ∀ level, (Expr.operand budget level).Reads (Derives (.operand level)) budget)
    (links : ∀ level, ReadsLinks budget level) :
    (chain budget .comparison).Reads (Derives .whole) budget := by
  intro site ts e rest h
  obtain ⟨used, n, here, ⟨k, derived⟩, le⟩ := reads_chain (operand .comparison) (links .comparison) h
  exact ⟨used, n, here, .whole derived, le⟩

/-- All rules for expressions read, by induction on the budget. -/
theorem reads_all (budget : Nat) :
    (∀ level, (Expr.operand budget level).Reads (Derives (.operand level)) budget) ∧
      ∀ level, ReadsLinks budget level := by
  induction budget using Nat.strongRecOn with
  | ind budget ih =>
    have primary : (primary budget).Reads (Derives .primary) budget :=
      reads_primary fun b lt => reads_comparison (ih b lt).1 (ih b lt).2
    have links : ∀ level, ReadsLinks budget level := fun level =>
      readsLinks fun b lt => ⟨(ih b lt).1 level, (ih b lt).2 level⟩
    exact ⟨reads_operand primary links, links⟩

/-- An expression is read as it is derived. -/
theorem reads_whole (budget : Nat) : (Expr.rule budget).Reads (Derives .whole) budget := by
  intro site ts e rest h
  exact reads_comparison (reads_all budget).1 (reads_all budget).2 (within_eq_ok.mp h)

end Expr

/-! ## Statements -/

namespace Stmt

/-- A statement that is read is derived, and an `else` is not left over for it. -/
def ReadsClosed (rule : Rule Stmt) (budget : Nat) : Prop :=
  ∀ ⦃site ts s rest⦄, rule site ts = .ok s rest →
    ∃ used n, ts = used ++ rest ∧ Derives used s n ∧ n ≤ budget ∧
      (s.endsOpen → kindOf rest ≠ .keyword .kwElse)

theorem Derives.ne_nil {ts : List Token} {s : Stmt} {n : Nat} (h : Derives ts s n) : ts ≠ [] := by
  cases h <;> simp

/-- Statements are read one after another, up to a token to stop at. -/
theorem reads_many {rule : Rule Stmt} {budget : Nat} {stop : TokenKind → Bool} {site : Site}
    {ts rest : List Token} {body : List Stmt} (item : ReadsClosed rule budget)
    (h : many stop rule site ts = .ok body rest) :
    ∃ used n, ts = used ++ rest ∧ DerivesAll used body n ∧ n ≤ budget ∧ stop (kindOf rest) := by
  induction len : ts.length using Nat.strongRecOn generalizing ts body with
  | ind length ih =>
    subst len
    rcases many_eq_ok.mp h with ⟨stops, rfl, rfl⟩ | ⟨s, middle, -, hs, goesOn⟩
    · exact ⟨[], 0, rfl, .nil, Nat.zero_le _, stops⟩
    · obtain ⟨used, n, rfl, derived, le, -⟩ := item hs
      have taken : 0 < used.length := List.length_pos_iff.mpr derived.ne_nil
      rcases goesOn with ⟨shrinks, later, hlater, rfl⟩ | ⟨stays, -⟩
      · obtain ⟨used', m, rfl, others, le', stops⟩ := ih _ shrinks hlater rfl
        exact ⟨used ++ used', max n m, by simp, .cons derived others, by omega, stops⟩
      · rw [List.length_append] at stays
        omega

theorem readsClosed_body {budget : Nat} {statement : Rule Stmt} (inside : ReadsClosed statement budget) :
    ∀ ⦃site ts s rest⦄, body budget statement site ts = .ok s rest →
      ∃ used n, ts = used ++ rest ∧ Derives used s (n + 1) ∧ n ≤ budget ∧
        (s.endsOpen → kindOf rest ≠ .keyword .kwElse) := by
  intro site ts s rest h
  cases ts with
  | nil => exact absurd h reject_ne_ok
  | cons t later =>
    cases kind : t.kind with
    | keyword word =>
      cases word with
      | kwVar =>
        obtain ⟨name, init, read, rfl⟩ := (body_of_var kind).mp h
        obtain ⟨x, equals, after, semicolon, rfl, named, rfl, assigns, value, ends⟩ :=
          assignment_eq_ok.mp read
        obtain ⟨used, n, rfl, derived, le⟩ := Expr.reads_whole budget value
        exact ⟨_, n, by simp, .declare kind named assigns derived ends, le, by simp [endsOpen]⟩
      | kwIf =>
        obtain ⟨c, middle, nested, after, tests, read, goesOn⟩ := (body_of_if kind).mp h
        obtain ⟨opening, within, closing, rfl, opens, tests, closes⟩ := condition_eq_ok.mp tests
        obtain ⟨used, n, rfl, derivedC, le⟩ := Expr.reads_whole budget tests
        obtain ⟨us, m, rfl, derivedB, le', lone⟩ := inside read
        rcases goesOn with ⟨lacks, rfl, rfl⟩ | ⟨other, behind, otherwise, rfl, turns, read', rfl⟩
        · exact ⟨_, max n m, by simp, .ifThen kind opens derivedC closes derivedB, by omega,
            fun _ => lacks⟩
        · obtain ⟨vs, l, rfl, derivedO, le'', lone'⟩ := inside read'
          have nearest : nested.endsOpen = false := by
            cases open? : nested.endsOpen with
            | false => rfl
            | true => exact absurd turns (lone open?)
          exact ⟨_, max n (max m l), by simp,
            .ifElse kind opens derivedC closes derivedB nearest turns derivedO, by omega, lone'⟩
      | kwElse =>
        simp only [body, line_bind, peek_bind, kindOf_cons, kind] at h
        exact absurd h reject_ne_ok
      | kwWhile =>
        obtain ⟨c, middle, nested, tests, read, rfl⟩ := (body_of_while kind).mp h
        obtain ⟨opening, within, closing, rfl, opens, tests, closes⟩ := condition_eq_ok.mp tests
        obtain ⟨used, n, rfl, derivedC, le⟩ := Expr.reads_whole budget tests
        obtain ⟨us, m, rfl, derivedB, le', lone⟩ := inside read
        exact ⟨_, max n m, by simp, .loop kind opens derivedC closes derivedB, by omega, lone⟩
    | identifier =>
      obtain ⟨name, value, read, rfl⟩ := (body_of_identifier kind).mp h
      obtain ⟨x, equals, after, semicolon, ⟨⟩, named, rfl, assigns, value, ends⟩ :=
        assignment_eq_ok.mp read
      obtain ⟨used, n, rfl, derived, le⟩ := Expr.reads_whole budget value
      exact ⟨_, n, by simp, .assign named assigns derived ends, le, by simp [endsOpen]⟩
    | openBrace =>
      obtain ⟨nested, read, rfl⟩ := (body_of_openBrace kind).mp h
      obtain ⟨opening, within, closing, ⟨⟩, opens, many, closes⟩ := block_eq_ok.mp read
      obtain ⟨used, n, rfl, derived, le, -⟩ := reads_many inside many
      exact ⟨_, n, by simp, .block opens derived closes, le, by simp [endsOpen]⟩
    | _ =>
      simp only [body, line_bind, peek_bind, kindOf_cons, kind] at h
      exact absurd h reject_ne_ok

/-- Statements are read as they are derived, by induction on the budget. -/
theorem readsClosed_rule (budget : Nat) : ReadsClosed (Stmt.rule budget) budget := by
  induction budget with
  | zero =>
    intro site ts s rest h
    exact absurd (within_eq_ok.mp h) tooDeep_ne_ok
  | succ budget ih =>
    intro site ts s rest h
    rw [Stmt.rule, within_eq_ok, contain_eq_ok] at h
    obtain ⟨used, n, here, derived, le, lone⟩ := readsClosed_body ih h
    exact ⟨used, n + 1, here, derived, by omega, lone⟩

end Stmt

/-- A program is read as it is derived, up to the end of the input. -/
theorem Program.reads_rule {budget : Nat} {site : Site} {ts rest : List Token} {program : Program}
    (h : Program.rule budget site ts = .ok program rest) :
    ∃ used n, ts = used ++ rest ∧ Stmt.DerivesAll used program n ∧ n ≤ budget ∧ kindOf rest = .eof := by
  obtain ⟨used, n, here, derived, le, stops⟩ := Stmt.reads_many (Stmt.readsClosed_rule budget) h
  exact ⟨used, n, here, derived, le, by simpa using stops⟩

end ThreeAddress
