import ThreeAddress.Proofs.Program.Lookahead

/-!
# Progress and open levels

A rule that succeeds has taken a token, and one that fails tells how many levels it left open. Only the
links of a chain leave levels open, no more than the budget allows; a statement comes back up from all
of them.

## Main definitions

* `Rule.TakesToken` says that a rule does not succeed without a token; the rules for statements,
  blocks, expressions and names are of this kind.
* `Rule.OpensAtMost` bounds the levels that a failure leaves open: by the budget for expressions, and by
  zero for all other parts of a program.
-/

namespace ThreeAddress

open Rule

variable {α β : Type}

/-- The number of levels that are left open: none after a success. -/
def Reply.opened : Reply α → Nat
  | .ok _ _ => 0
  | .fail _ _ raised => raised

/-- The rule leaves at most `bound` levels open. -/
def Rule.OpensAtMost (bound : Nat) (rule : Rule α) : Prop :=
  ∀ site ts, (rule site ts).opened ≤ bound

/-- Where the rule succeeds, it has taken a token. -/
def Rule.TakesToken (rule : Rule α) : Prop :=
  ∀ ⦃site ts a rest⦄, rule site ts = .ok a rest → rest.length < ts.length

namespace Rule

variable {bound : Nat} {rule : Rule α}

/-! ## Building blocks -/

theorem opensAtMost_pure (a : α) : (pure a : Rule α).OpensAtMost bound := fun _ _ => Nat.zero_le _

theorem opensAtMost_reject (wanted : Wanted) : (reject wanted : Rule α).OpensAtMost bound := fun _ _ =>
  Nat.zero_le _

theorem opensAtMost_tooDeep : (tooDeep : Rule α).OpensAtMost bound := fun _ _ => Nat.zero_le _

theorem OpensAtMost.bind {next : α → Rule β} (first : rule.OpensAtMost bound)
    (others : ∀ a, (next a).OpensAtMost bound) : (rule >>= next).OpensAtMost bound := by
  intro site ts
  have here := first site ts
  rw [bind_apply]
  cases reply : rule site ts with
  | ok a rest => exact others a site rest
  | fail => rwa [reply] at here

theorem opensAtMost_peek_bind {next : TokenKind → Rule β} (h : ∀ kind, (next kind).OpensAtMost bound) :
    (peek >>= next).OpensAtMost bound := fun site ts => h (kindOf ts) site ts

theorem opensAtMost_lexeme_bind {next : Lexeme → Rule β} (h : ∀ here, (next here).OpensAtMost bound) :
    (lexeme >>= next).OpensAtMost bound := fun site ts => h (site.lexemeOf ts) site ts

theorem opensAtMost_advance_bind {next : Unit → Rule β} (h : (next ()).OpensAtMost bound) :
    (advance >>= next).OpensAtMost bound := fun site ts => h site ts.tail

theorem OpensAtMost.discard (h : rule.OpensAtMost bound) : (discard rule : Rule PUnit).OpensAtMost bound :=
  h.bind fun _ => opensAtMost_pure _

theorem opensAtMost_expect (kind : TokenKind) : (expect kind).OpensAtMost bound := by
  refine opensAtMost_peek_bind fun here => ?_
  split
  next => exact opensAtMost_pure _
  next => exact opensAtMost_reject _

theorem opensAtMost_eat (kind : TokenKind) : (eat kind).OpensAtMost bound :=
  (opensAtMost_expect kind).bind fun _ => opensAtMost_lexeme_bind fun _ =>
    opensAtMost_advance_bind (opensAtMost_pure _)

theorem OpensAtMost.within (h : rule.OpensAtMost bound) (context : String) :
    (within context rule).OpensAtMost bound := by
  intro site ts
  have here := h site ts
  rw [Rule.within]
  cases reply : rule site ts with
  | ok => exact Nat.zero_le _
  | fail => rwa [reply] at here

theorem OpensAtMost.link (h : rule.OpensAtMost bound) : (link rule).OpensAtMost (bound + 1) := by
  intro site ts
  have here := h site ts
  rw [Rule.link]
  cases reply : rule site ts with
  | ok => exact Nat.zero_le _
  | fail =>
    rw [reply] at here
    exact Nat.succ_le_succ here

theorem opensAtMost_contain (rule : Rule α) : (contain rule).OpensAtMost bound := by
  intro site ts
  rw [contain]
  cases rule site ts <;> exact Nat.zero_le _

section

variable {stop : TokenKind → Bool} {site : Site} {ts rest : List Token} {a : α}

theorem many_of_stop (stops : stop (kindOf ts)) : many stop rule site ts = .ok [] ts := by
  rw [Rule.many, if_pos stops]

theorem many_of_fail {error : Diagnostic ParseFault} {raised : Nat} (goes : ¬stop (kindOf ts))
    (failed : rule site ts = .fail error rest raised) : many stop rule site ts = .fail error rest raised := by
  rw [Rule.many, if_neg goes, failed]

/-- An item that took a token is not the last one. -/
theorem many_of_ok (goes : ¬stop (kindOf ts)) (read : rule site ts = .ok a rest)
    (shrinks : rest.length < ts.length) :
    many stop rule site ts =
      match many stop rule site rest with
      | .ok later rest' => .ok (a :: later) rest'
      | .fail error rest' raised => .fail error rest' raised := by
  rw [Rule.many, if_neg goes, read]
  exact if_pos shrinks

end

theorem OpensAtMost.many (h : rule.OpensAtMost bound) (stop : TokenKind → Bool) :
    Rule.OpensAtMost bound (many stop rule) := by
  intro site ts
  induction len : ts.length using Nat.strongRecOn generalizing ts with
  | ind n ih =>
    subst len
    have here := h site ts
    rw [Rule.many]
    split
    next => exact Nat.zero_le _
    next =>
      cases reply : rule site ts with
      | fail => rwa [reply] at here
      | ok a rest =>
        dsimp only
        split
        next shrinks =>
          have later := ih _ shrinks rest rfl
          cases others : Rule.many stop rule site rest with
          | ok => exact Nat.zero_le _
          | fail => rwa [others] at later
        next => exact Nat.zero_le _

theorem opensAtMost_identifier : identifier.OpensAtMost bound :=
  (opensAtMost_eat _).within _

theorem opensAtMost_keyword (word : Keyword) : (keyword word).OpensAtMost bound :=
  (opensAtMost_eat _).discard.within _

theorem length_lt_append {used : List Token} (some : used ≠ []) (rest : List Token) :
    rest.length < (used ++ rest).length := by
  have taken := List.length_pos_iff.mpr some
  rw [List.length_append]
  omega

theorem suffix_expect (kind : TokenKind) (site : Site) (ts : List Token) :
    (expect kind site ts).rest <:+ ts := by
  rw [expect, peek_bind]
  split <;> exact List.suffix_rfl

theorem takesToken_discard_eat {kind : TokenKind} (present : kind ≠ .eof) :
    (discard (eat kind) : Rule PUnit).TakesToken := by
  intro site ts u rest read
  obtain ⟨t, rfl, -⟩ := (discard_eat_eq_ok present).mp read
  exact Nat.lt_succ_self _

theorem takesToken_keyword (word : Keyword) : (keyword word).TakesToken := by
  intro site ts u rest read
  obtain ⟨t, rfl, -⟩ := keyword_eq_ok.mp read
  exact Nat.lt_succ_self _

theorem takesToken_identifier : identifier.TakesToken := by
  intro site ts name rest read
  obtain ⟨t, rfl, -, -⟩ := identifier_eq_ok.mp read
  exact Nat.lt_succ_self _

end Rule

/-! ## Expressions -/

namespace Expr

variable {bound budget : Nat} {level : Level}

theorem Derives.ne_nil {part : Part} {ts : List Token} {e : Expr} {n : Nat} (h : Derives part ts e n) :
    ts ≠ [] := by
  induction h with
  | number | name | parens | next => simp
  | factor _ ih | term _ ih | comparison _ ih | first _ ih | whole _ ih => exact ih

theorem takesToken_rule (budget : Nat) : (Expr.rule budget).TakesToken := by
  intro site ts e rest read
  obtain ⟨used, n, rfl, derived, -⟩ := reads_whole budget read
  exact length_lt_append derived.ne_nil rest

/-- Parentheses come back up from all levels inside of them. -/
theorem opensAtMost_primary (budget : Nat) : (primary budget).OpensAtMost bound := by
  rw [primary]
  refine OpensAtMost.within (opensAtMost_peek_bind fun kind => ?_) _
  cases kind with
  | openParen =>
    have closes (inner : Expr) : Rule.OpensAtMost bound
        (do discard (within "as the end of the expression" (eat .closeParen)); return inner) :=
      ((opensAtMost_eat _).within _).discard.bind fun _ => opensAtMost_pure _
    refine opensAtMost_advance_bind ?_
    cases budget with
    | zero => exact opensAtMost_tooDeep.bind closes
    | succ b => exact (opensAtMost_contain _).bind closes
  | number =>
    refine opensAtMost_lexeme_bind fun here => ?_
    cases Decimal.word? here.text.toList with
    | some word => exact opensAtMost_advance_bind (opensAtMost_pure _)
    | none => exact fun _ _ => Nat.zero_le _
  | identifier => exact opensAtMost_lexeme_bind fun _ => opensAtMost_advance_bind (opensAtMost_pure _)
  | _ => exact opensAtMost_reject _

section

variable {site : Site} {ts rest : List Token} {op : Operator} {lhs : Expr}

theorem links_of_none (absent : level.operator? (kindOf ts) = none) :
    links budget level lhs site ts = .ok lhs ts := by
  rw [links, peek_bind, absent]
  rfl

theorem links_zero (sign : level.operator? (kindOf ts) = some op) :
    links 0 level lhs site ts = tooDeep site ts := by
  rw [links, peek_bind, sign]

theorem links_of_fail {error : Diagnostic ParseFault} {raised : Nat}
    (sign : level.operator? (kindOf ts) = some op)
    (failed : operand budget level site ts.tail = .fail error rest raised) :
    links (budget + 1) level lhs site ts = .fail error rest (raised + 1) := by
  rw [links, peek_bind, sign]
  simp only [link, bind_apply, advance, failed]

/-- Behind a right operand, the chain goes on one level deeper. -/
theorem links_of_ok {rhs : Expr} (sign : level.operator? (kindOf ts) = some op)
    (read : operand budget level site ts.tail = .ok rhs rest) :
    links (budget + 1) level lhs site ts = link (links budget level (.binary op lhs rhs)) site rest := by
  rw [links, peek_bind, sign]
  simp only [link, bind_apply, advance, read]

end

/-- The links of a chain leave the levels open that they went down. -/
theorem opensAtMost_links (less : ∀ b < budget, (operand b level).OpensAtMost b ∧
    ∀ lhs, (links b level lhs).OpensAtMost b) (lhs : Expr) : (links budget level lhs).OpensAtMost budget := by
  rw [links]
  refine opensAtMost_peek_bind fun kind => ?_
  cases level.operator? kind with
  | none => exact opensAtMost_pure _
  | some op =>
    cases budget with
    | zero => exact opensAtMost_tooDeep
    | succ b =>
      obtain ⟨operand, links⟩ := less b b.lt_succ_self
      exact (opensAtMost_advance_bind (operand.bind fun _ => links _)).link

/-- All rules for expressions leave no more levels open than their budget allows. -/
theorem opensAtMost_all (budget : Nat) :
    (∀ level, (operand budget level).OpensAtMost budget) ∧
      ∀ level lhs, (links budget level lhs).OpensAtMost budget := by
  induction budget using Nat.strongRecOn with
  | ind budget ih =>
    have links (level : Level) (lhs : Expr) : (links budget level lhs).OpensAtMost budget :=
      opensAtMost_links (fun b lt => ⟨(ih b lt).1 level, (ih b lt).2 level⟩) lhs
    have chain_of {level : Level} (first : (operand budget level).OpensAtMost budget) :
        (chain budget level).OpensAtMost budget := by
      rw [chain]
      exact first.bind (links level)
    have factor : (operand budget .factor).OpensAtMost budget := by
      rw [operand]
      exact opensAtMost_primary budget
    have term : (operand budget .term).OpensAtMost budget := by
      rw [operand]
      exact chain_of factor
    have comparison : (operand budget .comparison).OpensAtMost budget := by
      rw [operand]
      exact chain_of term
    exact ⟨fun level => by cases level <;> assumption, links⟩

theorem opensAtMost_rule (budget : Nat) : (Expr.rule budget).OpensAtMost budget := by
  obtain ⟨operand, links⟩ := opensAtMost_all budget
  refine OpensAtMost.within ?_ _
  rw [chain]
  exact (operand _).bind (links _)

end Expr

/-! ## Statements -/

namespace Stmt

variable {bound : Nat}

theorem takesToken_rule (budget : Nat) : (Stmt.rule budget).TakesToken := by
  intro site ts s rest read
  obtain ⟨used, n, rfl, derived, -, -⟩ := readsClosed_rule budget read
  exact length_lt_append derived.ne_nil rest

theorem takesToken_condition (budget : Nat) : (condition budget).TakesToken := by
  intro site ts e rest read
  obtain ⟨opening, later, closing, rfl, -, inside, -⟩ := condition_eq_ok.mp read
  have shorter := Expr.takesToken_rule budget inside
  rw [List.length_cons] at shorter ⊢
  omega

/-- Statements come back up from all levels inside of them. -/
theorem opensAtMost_rule (budget : Nat) : (Stmt.rule budget).OpensAtMost bound := by
  cases budget with
  | zero => exact opensAtMost_tooDeep.within _
  | succ budget => exact (opensAtMost_contain _).within _

end Stmt

namespace Block

variable {bound : Nat} {statement : Rule Stmt}

theorem takesToken_rule (suffix : ∀ site ts, (statement site ts).rest <:+ ts) :
    (Block.rule statement).TakesToken := by
  intro site ts body rest read
  obtain ⟨opening, within, closing, rfl, -, inside, -⟩ := Stmt.block_eq_ok.mp read
  have before : closing :: rest <:+ within := by
    have left := rest_many_suffix suffix (fun kind => kind = .closeBrace || kind = .eof) site within
    rwa [inside] at left
  have shorter := before.length_le
  rw [List.length_cons] at shorter ⊢
  omega

theorem opensAtMost_rule (inside : statement.OpensAtMost bound) :
    (Block.rule statement).OpensAtMost bound :=
  .within ((opensAtMost_eat _).discard.bind fun _ => (inside.many _).bind fun _ =>
    (opensAtMost_eat _).discard.bind fun _ => opensAtMost_pure _) _

end Block

theorem Program.opensAtMost_rule {bound : Nat} (budget : Nat) : (Program.rule budget).OpensAtMost bound :=
  (Stmt.opensAtMost_rule budget).many _

end ThreeAddress
