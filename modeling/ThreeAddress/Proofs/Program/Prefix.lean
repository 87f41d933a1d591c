import ThreeAddress.Proofs.Program.Soundness

/-!
# What was read can be completed

A rule that finds an unwanted token has read tokens with which something that it could read begins: the
tokens that it has passed can be completed to a derivation, whatever comes behind them. So nothing is
read in vain, at any depth, before a syntax error is told.

## Main definitions

* `ParseFault.found?` is the kind of the unwanted token.
* `Reply.Begins` says that the tokens before a failure can be completed; `Rule.Begins` says it of a
  rule.
* `Expr.begins_rule`, `Stmt.begins_rule` and `Program.begins_rule` say it of the rules of the grammar.
-/

namespace ThreeAddress

open Rule

/-- The kind of the token that was found instead of what was wanted; none for other faults. -/
def ParseFault.found? : ParseFault → Option TokenKind
  | expected _ found _ => some found
  | integerOutOfRange .. | nestingTooDeep _ => none

/-- A token of a kind, with no text. -/
def Token.ofKind (kind : TokenKind) : Token :=
  ⟨kind, ⟨"", ⟨0, 0⟩⟩, .start⟩

@[simp] theorem Token.kind_ofKind (kind : TokenKind) : (ofKind kind).kind = kind := rfl

/-- If an unwanted token was found, it is the first one that is left, and the tokens of `ts` before it
can be completed to some that `derived` holds of. -/
def Reply.Begins {α : Type} (ts : List Token) (derived : List Token → Prop) : Reply α → Prop
  | .ok _ _ => True
  | .fail error rest _ => ∀ found, error.kind.found? = some found →
      found = kindOf rest ∧ ∃ used more, ts = used ++ rest ∧ derived (used ++ more)

/-- Wherever the rule finds an unwanted token, the tokens before it can be completed. -/
def Rule.Begins {α : Type} (rule : Rule α) (derived : List Token → Prop) : Prop :=
  ∀ site ts, (rule site ts).Begins ts derived

section

variable {α β : Type} {site : Site} {ts : List Token} {derived other : List Token → Prop}

/-! ## Building blocks -/

namespace Reply.Begins

/-- What is completed to one thing can be completed to another one that begins with it. -/
theorem imp {reply : Reply α} (h : reply.Begins ts derived)
    (complete : ∀ us, derived us → ∃ more, other (us ++ more)) : reply.Begins ts other := by
  cases reply with
  | ok => trivial
  | fail error rest raised =>
    intro found unwanted
    obtain ⟨first, used, more, split, beginning⟩ := h found unwanted
    obtain ⟨last, whole⟩ := complete _ beginning
    exact ⟨first, used, more ++ last, split, by rwa [List.append_assoc] at whole⟩

/-- Tokens that were read before come before what was read since. -/
theorem append {reply : Reply α} (before : List Token)
    (h : reply.Begins ts fun us => derived (before ++ us)) : reply.Begins (before ++ ts) derived := by
  cases reply with
  | ok => trivial
  | fail error rest raised =>
    intro found unwanted
    obtain ⟨first, used, more, split, beginning⟩ := h found unwanted
    exact ⟨first, before ++ used, more, by rw [split, List.append_assoc],
      by rwa [← List.append_assoc] at beginning⟩

theorem of_retells {reply told : Reply α} (h : reply.Begins ts derived) (retells : reply.Retells told) :
    told.Begins ts derived := by
  cases retells with
  | ok => trivial
  | fail alike =>
    intro found unwanted
    exact h found (by rwa [alike])

/-- What comes next begins behind the tokens that the first rule has read. -/
theorem bind {rule : Rule α} {next : α → Rule β} (first : (rule site ts).Begins ts derived)
    (others : ∀ a rest, rule site ts = .ok a rest → ∃ used, ts = used ++ rest ∧
      (next a site rest).Begins rest fun us => derived (used ++ us)) :
    ((rule >>= next) site ts).Begins ts derived := by
  rw [bind_apply]
  cases reply : rule site ts with
  | fail error rest raised =>
    rw [reply] at first
    exact first
  | ok a rest =>
    obtain ⟨used, rfl, begins⟩ := others a rest reply
    exact begins.append used

end Reply.Begins

namespace Rule

theorem Begins.imp {rule : Rule α} (h : rule.Begins derived)
    (complete : ∀ us, derived us → ∃ more, other (us ++ more)) : rule.Begins other := fun site ts =>
  (h site ts).imp complete

theorem Begins.bind {rule : Rule α} {next : α → Rule β} (first : rule.Begins derived)
    (others : ∀ site ts a rest, rule site ts = .ok a rest → ∃ used, ts = used ++ rest ∧
      (next a site rest).Begins rest fun us => derived (used ++ us)) :
    (rule >>= next).Begins derived := fun site ts =>
  (first site ts).bind (others site ts)

theorem Begins.mono {rule : Rule α} (h : rule.Begins derived) (whole : ∀ us, derived us → other us) :
    rule.Begins other :=
  h.imp fun us beginning => ⟨[], by simpa using whole us beginning⟩

/-- What comes next may be left out if it reads nothing and cannot fail. -/
theorem Begins.bind_ok {rule : Rule α} {next : α → Rule β} (h : rule.Begins derived)
    (done : ∀ a site ts, ∃ b, next a site ts = .ok b ts) : (rule >>= next).Begins derived := by
  intro site ts
  have begins := h site ts
  rw [bind_apply]
  generalize rule site ts = reply at begins ⊢
  cases reply with
  | ok a rest =>
    obtain ⟨b, same⟩ := done a site rest
    simp only [same]
    trivial
  | fail => exact begins

theorem Begins.discard {rule : Rule α} (h : rule.Begins derived) :
    (discard rule : Rule PUnit).Begins derived :=
  h.bind_ok fun _ _ _ => ⟨_, rfl⟩

theorem begins_pure (a : α) : (pure a : Rule α).Begins derived := fun _ _ => trivial

/-- A rule that finds its first token unwanted has read nothing. -/
theorem begins_reject (wanted : Wanted) (whole : ∃ more, derived more) :
    (reject wanted : Rule α).Begins derived := by
  rintro site ts found ⟨⟩
  obtain ⟨more, whole⟩ := whole
  exact ⟨rfl, [], more, rfl, whole⟩

theorem begins_tooDeep : (tooDeep : Rule α).Begins derived := by
  rintro site ts found ⟨⟩

theorem Begins.within {rule : Rule α} (h : rule.Begins derived) (context : String) :
    (within context rule).Begins derived := fun site ts =>
  (h site ts).of_retells (retells_within context rule site ts)

theorem begins_link {rule : Rule α} (h : (rule site ts).Begins ts derived) :
    (link rule site ts).Begins ts derived :=
  h.of_retells (retells_link rule site ts)

theorem Begins.contain {rule : Rule α} (h : rule.Begins derived) :
    (contain rule).Begins derived := fun site ts =>
  (h site ts).of_retells (retells_contain rule site ts)

/-- A token that is passed comes before what is read behind it. -/
theorem begins_advance_bind {t : Token} {later : List Token} {next : Unit → Rule β}
    (h : (next ()).Begins fun us => derived (t :: us)) :
    ((advance >>= next) site (t :: later)).Begins (t :: later) derived :=
  Reply.Begins.append [t] (h site later)

/-- A token that can be the first one is completed by what can come behind it. -/
theorem begins_eat {kind : TokenKind} (whole : ∃ more, derived (.ofKind kind :: more)) :
    (eat kind).Begins derived := by
  obtain ⟨more, whole⟩ := whole
  intro site ts
  rw [eat, bind_apply, expect, peek_bind]
  by_cases here : kindOf ts = kind
  · rw [if_pos here]
    trivial
  · rw [if_neg here]
    exact begins_reject (.kind kind) ⟨_, whole⟩ site ts

/-- A token, and what comes behind it. -/
theorem begins_eat_bind {kind : TokenKind} {next : PUnit → Rule β} (present : kind ≠ .eof)
    (whole : ∃ more, derived (.ofKind kind :: more))
    (others : ∀ t : Token, t.kind = kind → (next ⟨⟩).Begins fun us => derived (t :: us)) :
    ((discard (eat kind) : Rule PUnit) >>= next).Begins derived := by
  refine (begins_eat whole).discard.bind fun site ts _ rest read => ?_
  obtain ⟨t, rfl, same⟩ := (discard_eat_eq_ok present).mp read
  exact ⟨[t], rfl, others t same site rest⟩

/-- A last token. -/
theorem begins_eat_pure {kind : TokenKind} (a : α) (whole : derived [.ofKind kind]) :
    (do discard (eat kind); return a : Rule α).Begins derived :=
  (begins_eat ⟨[], whole⟩).discard.bind_ok fun _ _ _ => ⟨a, rfl⟩

end Rule

end

/-! ## Expressions -/

namespace Expr

/-- The tokens derive an expression as a part of the grammar. -/
def IsPart (part : Part) (ts : List Token) : Prop :=
  ∃ e n, Derives part ts e n

/-- The tokens derive a chain of some length. -/
def IsChain (level : Level) (ts : List Token) : Prop :=
  ∃ k, IsPart (.chain level k) ts

theorem IsPart.first {level : Level} {ts : List Token} (h : IsPart (.operand level) ts) :
    IsChain level ts := by
  obtain ⟨e, n, derived⟩ := h
  exact ⟨0, e, n, .first derived⟩

theorem IsPart.factor {ts : List Token} (h : IsPart .primary ts) : IsPart (.operand .factor) ts := by
  obtain ⟨e, n, derived⟩ := h
  exact ⟨e, n, .factor derived⟩

theorem IsChain.term {ts : List Token} (h : IsChain .factor ts) : IsPart (.operand .term) ts := by
  obtain ⟨k, e, n, derived⟩ := h
  exact ⟨e, n, .term derived⟩

theorem IsChain.comparison {ts : List Token} (h : IsChain .term ts) :
    IsPart (.operand .comparison) ts := by
  obtain ⟨k, e, n, derived⟩ := h
  exact ⟨e, n, .comparison derived⟩

theorem IsChain.whole {ts : List Token} (h : IsChain .comparison ts) : IsPart .whole ts := by
  obtain ⟨k, e, n, derived⟩ := h
  exact ⟨e, n, .whole derived⟩

/-- Behind the beginning of a chain, the rest of it can be completed. -/
def BeginsLinks (budget : Nat) (level : Level) : Prop :=
  ∀ lhs before k n, Derives (.chain level k) before lhs n →
    (links budget level lhs).Begins fun us => IsChain level (before ++ us)

variable {budget : Nat} {level : Level}

theorem begins_chain (operand : (Expr.operand budget level).Begins (IsPart (.operand level)))
    (links : BeginsLinks budget level) : (chain budget level).Begins (IsChain level) := by
  have first : (Expr.operand budget level).Begins (IsChain level) :=
    operand.mono fun us => IsPart.first
  rw [chain]
  refine first.bind fun site ts lhs rest read => ?_
  obtain ⟨used, n, here, derived, -⟩ := (reads_all budget).1 level read
  exact ⟨used, here, links lhs used 0 n (.first derived) site rest⟩

/-- The rest of a chain can be completed, if it can with one level less. -/
theorem beginsLinks (less : ∀ b < budget, (operand b level).Begins (IsPart (.operand level)) ∧
    BeginsLinks b level) : BeginsLinks budget level := by
  intro lhs before k n derived site ts
  rw [links, peek_bind]
  cases found : level.operator? (kindOf ts) with
  | none => exact begins_pure lhs site ts
  | some op =>
    obtain ⟨rfl, sign⟩ := Level.operator?_eq_some_iff.mp found
    obtain ⟨t, later, rfl, same⟩ := exists_cons_of_kindOf sign.symm op.token_ne_eof
    cases budget with
    | zero => exact begins_tooDeep site _
    | succ b =>
      obtain ⟨operand, others⟩ := less b b.lt_succ_self
      have first : (Expr.operand b op.level).Begins fun us => IsChain op.level (before ++ t :: us) := by
        refine operand.mono fun us last => ?_
        obtain ⟨rhs, m, right⟩ := last
        exact ⟨k + 1, _, _, derived.next rfl same right⟩
      refine begins_link (begins_advance_bind (first.bind fun site ts rhs rest read => ?_))
      obtain ⟨used, m, here, right, -⟩ := (reads_all b).1 op.level read
      have linked := others _ _ _ _ (derived.next rfl same right) site rest
      exact ⟨used, here, by simpa using linked⟩

/-- A literal that is refused is not an unwanted token. -/
theorem begins_literal {derived : List Token → Prop} : literal.Begins derived := by
  intro site ts
  rw [literal, lexeme_bind]
  cases Decimal.word? (site.lexemeOf ts).text.toList with
  | some word => trivial
  | none => rintro found ⟨⟩

/-- What is no chain can be completed, if expressions can with one level less: every parenthesis can be
closed. -/
theorem begins_primary (less : ∀ b < budget, (chain b .comparison).Begins (IsPart .whole)) :
    (primary budget).Begins (IsPart .primary) := by
  have name : IsPart .primary [.ofKind .identifier] := ⟨_, 0, .name rfl⟩
  rw [primary]
  refine Begins.within (fun site ts => ?_) _
  rw [peek_bind]
  cases ts with
  | nil => exact begins_reject _ ⟨_, name⟩ site []
  | cons t later =>
    rw [kindOf_cons]
    cases kind : t.kind with
    | openParen =>
      cases budget with
      | zero =>
        refine begins_advance_bind (begins_tooDeep.bind fun site ts a rest read => ?_)
        exact absurd read tooDeep_ne_ok
      | succ b =>
        have closed {us : List Token} (inside : IsPart .whole us) :
            IsPart .primary (t :: (us ++ [.ofKind .closeParen])) := by
          obtain ⟨e, n, derived⟩ := inside
          exact ⟨e, n + 1, .parens kind derived rfl⟩
        have inner := (less b b.lt_succ_self).contain
        refine begins_advance_bind ((inner.imp fun us inside => ⟨_, closed inside⟩).bind
          fun site ts e rest read => ?_)
        obtain ⟨used, n, here, derived, -⟩ := reads_whole b (within_eq_ok.mpr (contain_eq_ok.mp read))
        exact ⟨used, here, ((begins_eat ⟨[], closed ⟨e, n, derived⟩⟩).within _).discard.bind_ok
          (fun _ _ _ => ⟨e, rfl⟩) site rest⟩
    | number => exact begins_literal site _
    | identifier => trivial
    | _ => exact begins_reject _ ⟨_, name⟩ site _

/-- A name can stand for every expression that is missing. -/
theorem derives_name : Derives .whole [.ofKind .identifier] (.name (Token.ofKind .identifier).lexeme) 0 :=
  .whole (.first (.comparison (.first (.term (.first (.factor (.name rfl)))))))

/-- All rules for expressions begin what they read, by induction on the budget. -/
theorem begins_all (budget : Nat) :
    (∀ level, (operand budget level).Begins (IsPart (.operand level))) ∧
      ∀ level, BeginsLinks budget level := by
  induction budget using Nat.strongRecOn with
  | ind budget ih =>
    have links : ∀ level, BeginsLinks budget level := fun level =>
      beginsLinks fun b lt => ⟨(ih b lt).1 level, (ih b lt).2 level⟩
    have whole : ∀ b < budget, (chain b .comparison).Begins (IsPart .whole) := fun b lt =>
      (begins_chain ((ih b lt).1 .comparison) ((ih b lt).2 .comparison)).mono fun us => IsChain.whole
    have factor : (operand budget .factor).Begins (IsPart (.operand .factor)) := by
      rw [operand]
      exact (begins_primary whole).mono fun us => IsPart.factor
    have term : (operand budget .term).Begins (IsPart (.operand .term)) := by
      rw [operand]
      exact (begins_chain factor (links .factor)).mono fun us => IsChain.term
    have comparison : (operand budget .comparison).Begins (IsPart (.operand .comparison)) := by
      rw [operand]
      exact (begins_chain term (links .term)).mono fun us => IsChain.comparison
    exact ⟨fun level => by cases level <;> assumption, links⟩

/-- An expression that was begun can be completed. -/
theorem begins_rule (budget : Nat) : (Expr.rule budget).Begins (IsPart .whole) := by
  obtain ⟨operand, links⟩ := begins_all budget
  have whole : (chain budget .comparison).Begins (IsPart .whole) :=
    (begins_chain (operand .comparison) (links .comparison)).mono fun us => IsChain.whole
  exact whole.within _

/-- An expression, and what comes behind it. -/
theorem begins_rule_bind {β : Type} {next : Expr → Rule β} {derived : List Token → Prop} {budget : Nat}
    (whole : ∀ us e n, Derives .whole us e n → ∃ more, derived (us ++ more))
    (others : ∀ us e n, Derives .whole us e n → (next e).Begins fun vs => derived (us ++ vs)) :
    (Expr.rule budget >>= next).Begins derived := by
  have first : (Expr.rule budget).Begins derived := by
    refine (begins_rule budget).imp fun us inside => ?_
    obtain ⟨e, n, derived⟩ := inside
    exact whole us e n derived
  refine first.bind fun site ts e rest read => ?_
  obtain ⟨used, n, here, derived, -⟩ := reads_whole budget read
  exact ⟨used, here, others used e n derived site rest⟩

end Expr

/-! ## Statements -/

namespace Stmt

variable {budget : Nat} {statement : Rule Stmt} {site : Site} {t : Token} {later : List Token}

/-- The tokens derive a statement. -/
def IsStmt (ts : List Token) : Prop :=
  ∃ s n, Derives ts s n

/-- The tokens derive statements one after another. -/
def IsStmts (ts : List Token) : Prop :=
  ∃ body n, DerivesAll ts body n

/-- A name, an equals sign, an expression and a semicolon. -/
inductive IsAssignment : List Token → Prop where
  | intro {name equals semicolon : Token} {ts : List Token} {e : Expr} {n : Nat}
      (named : name.kind = .identifier) (assigns : equals.kind = .operator .equals false)
      (value : Expr.Derives .whole ts e n) (ends : semicolon.kind = .semicolon) :
      IsAssignment (name :: equals :: (ts ++ [semicolon]))

theorem IsAssignment.declare {ts : List Token} (h : IsAssignment ts) (kind : t.kind = .keyword .kwVar) :
    IsStmt (t :: ts) := by
  obtain ⟨named, assigns, value, ends⟩ := h
  exact ⟨_, _, .declare kind named assigns value ends⟩

theorem IsAssignment.assign {ts : List Token} (h : IsAssignment ts) : IsStmt ts := by
  obtain ⟨named, assigns, value, ends⟩ := h
  exact ⟨_, _, .assign named assigns value ends⟩

/-- The tokens are those of a condition: an expression in parentheses. -/
inductive IsCondition : List Token → Expr → Prop where
  | intro {opening closing : Token} {ts : List Token} {e : Expr} {n : Nat}
      (opens : opening.kind = .openParen) (tests : Expr.Derives .whole ts e n)
      (closes : closing.kind = .closeParen) : IsCondition (opening :: (ts ++ [closing])) e

theorem IsCondition.ifThen {ts us : List Token} {e : Expr} (tests : IsCondition ts e)
    (asks : t.kind = .keyword .kwIf) (inside : IsStmt us) : IsStmt (t :: (ts ++ us)) := by
  obtain ⟨opens, tests, closes⟩ := tests
  obtain ⟨s, n, inside⟩ := inside
  exact ⟨_, _, by simpa using Derives.ifThen asks opens tests closes inside⟩

theorem IsCondition.ifElse {ts us vs : List Token} {e : Expr} {s : Stmt} {n : Nat} {other : Token}
    (tests : IsCondition ts e) (asks : t.kind = .keyword .kwIf) (inside : Derives us s n)
    (nearest : s.endsOpen = false) (turns : other.kind = .keyword .kwElse) (elsewhere : IsStmt vs) :
    IsStmt (t :: (ts ++ (us ++ other :: vs))) := by
  obtain ⟨opens, tests, closes⟩ := tests
  obtain ⟨s', n', elsewhere⟩ := elsewhere
  exact ⟨_, _, by simpa using Derives.ifElse asks opens tests closes inside nearest turns elsewhere⟩

theorem IsCondition.loop {ts us : List Token} {e : Expr} (tests : IsCondition ts e)
    (repeats : t.kind = .keyword .kwWhile) (inside : IsStmt us) : IsStmt (t :: (ts ++ us)) := by
  obtain ⟨opens, tests, closes⟩ := tests
  obtain ⟨s, n, inside⟩ := inside
  exact ⟨_, _, by simpa using Derives.loop repeats opens tests closes inside⟩

/-- The shortest statement. -/
theorem isStmt_empty : IsStmt [.ofKind .openBrace, .ofKind .closeBrace] :=
  ⟨.block [], 1, .block rfl .nil rfl⟩

theorem begins_assignment (budget : Nat) : (assignment budget).Begins IsAssignment := by
  have whole {name equals : Token} (named : name.kind = .identifier)
      (assigns : equals.kind = .operator .equals false) {us : List Token} {e : Expr} {n : Nat}
      (derived : Expr.Derives .whole us e n) :
      IsAssignment (name :: equals :: (us ++ [.ofKind .semicolon])) :=
    .intro named assigns derived rfl
  have first : identifier.Begins IsAssignment :=
    (begins_eat ⟨_, whole rfl (Token.kind_ofKind (.operator .equals false)) Expr.derives_name⟩).within _
  refine first.bind fun site ts name rest read => ?_
  obtain ⟨x, rfl, named, -⟩ := identifier_eq_ok.mp read
  refine ⟨[x], rfl, begins_eat_bind (by decide : TokenKind.operator .equals false ≠ .eof)
    ⟨_, whole named rfl Expr.derives_name⟩ (fun equals assigns => ?_) site rest⟩
  refine Expr.begins_rule_bind (fun us e n derived => ⟨_, whole named assigns derived⟩)
    fun us e n derived => ?_
  exact begins_eat_pure (name, e) (whole named assigns derived)

theorem begins_condition (budget : Nat) : (condition budget).Begins fun us => ∃ e, IsCondition us e := by
  have whole {opening : Token} (opens : opening.kind = .openParen) {us : List Token} {e : Expr} {n : Nat}
      (derived : Expr.Derives .whole us e n) :
      ∃ e, IsCondition (opening :: (us ++ [.ofKind .closeParen])) e :=
    ⟨e, .intro opens derived rfl⟩
  refine Begins.within (begins_eat_bind (by decide : TokenKind.openParen ≠ .eof)
    ⟨_, whole rfl Expr.derives_name⟩ fun opening opens => ?_) _
  refine Expr.begins_rule_bind (fun us e n derived => ⟨_, whole opens derived⟩) fun us e n derived => ?_
  exact begins_eat_pure e (whole opens derived)

/-- A condition, and what comes behind it. -/
theorem begins_condition_bind {β : Type} {next : Expr → Rule β} {derived : List Token → Prop}
    (whole : ∀ us e, IsCondition us e → ∃ more, derived (us ++ more))
    (others : ∀ us e, IsCondition us e → (next e).Begins fun vs => derived (us ++ vs)) :
    (condition budget >>= next).Begins derived := by
  have first : (condition budget).Begins derived := by
    refine (begins_condition budget).imp fun us inside => ?_
    obtain ⟨e, tests⟩ := inside
    exact whole us e tests
  refine first.bind fun site ts e rest read => ?_
  obtain ⟨opening, within, closing, rfl, opens, read, closes⟩ := condition_eq_ok.mp read
  obtain ⟨used, n, rfl, derived, -⟩ := Expr.reads_whole budget read
  exact ⟨opening :: (used ++ [closing]), by simp, others _ e (.intro opens derived closes) site rest⟩

/-- A statement, and what comes behind it. -/
theorem begins_item_bind {β : Type} {next : Stmt → Rule β} {derived : List Token → Prop}
    (item : statement.Begins IsStmt) (closed : ReadsClosed statement budget)
    (whole : ∀ us, IsStmt us → ∃ more, derived (us ++ more))
    (others : ∀ us s n rest site, Derives us s n → (s.endsOpen → kindOf rest ≠ .keyword .kwElse) →
      (next s site rest).Begins rest fun vs => derived (us ++ vs)) :
    (statement >>= next).Begins derived := by
  refine (item.imp whole).bind fun site ts s rest read => ?_
  obtain ⟨used, n, here, derived, -, lone⟩ := closed read
  exact ⟨used, here, others used s n rest site derived lone⟩

/-- Statements one after another can be completed, if each of them can. -/
theorem begins_many {stop : TokenKind → Bool} (item : statement.Begins IsStmt)
    (closed : ReadsClosed statement budget) : Rule.Begins (many stop statement) IsStmts := by
  intro site ts
  induction len : ts.length using Nat.strongRecOn generalizing ts with
  | ind length ih =>
    subst len
    rw [many]
    split
    next => trivial
    next =>
      have first := item site ts
      cases reply : statement site ts with
      | fail error rest raised =>
        rw [reply] at first
        refine first.imp fun us one => ⟨[], ?_⟩
        obtain ⟨s, n, derived⟩ := one
        exact ⟨[s], _, .cons derived .nil⟩
      | ok s rest =>
        obtain ⟨used, n, rfl, derived, -, -⟩ := closed reply
        have taken : 0 < used.length := List.length_pos_iff.mpr derived.ne_nil
        have shrinks : rest.length < (used ++ rest).length := by
          rw [List.length_append]
          omega
        have others := ih _ shrinks rest rfl
        simp only [shrinks, if_true]
        cases later : many stop statement site rest with
        | ok => trivial
        | fail error left raised =>
          rw [later] at others
          refine Reply.Begins.append used (others.imp fun us more => ⟨[], ?_⟩)
          obtain ⟨body, m, derived'⟩ := more
          rw [List.append_nil]
          exact ⟨s :: body, max n m, .cons derived derived'⟩

theorem begins_block (item : statement.Begins IsStmt) (closed : ReadsClosed statement budget) :
    (Block.rule statement).Begins IsStmt := by
  have whole {opening : Token} (opens : opening.kind = .openBrace) {us : List Token} {body : List Stmt}
      {n : Nat} (derived : DerivesAll us body n) : IsStmt (opening :: (us ++ [.ofKind .closeBrace])) :=
    ⟨_, _, .block opens derived rfl⟩
  refine Begins.within (begins_eat_bind (by decide : TokenKind.openBrace ≠ .eof)
    ⟨_, whole rfl .nil⟩ fun opening opens => ?_) _
  have first : Rule.Begins (many (fun kind => kind = .closeBrace || kind = .eof) statement) fun us =>
      IsStmt (opening :: us) := by
    refine (begins_many item closed).imp fun us inside => ?_
    obtain ⟨body, n, derived⟩ := inside
    exact ⟨_, whole opens derived⟩
  refine first.bind fun site ts body rest read => ?_
  obtain ⟨used, n, here, derived, -, -⟩ := reads_many closed read
  exact ⟨used, here, begins_eat_pure body (whole opens derived) site rest⟩

/-- A keyword that comes is passed. -/
theorem begins_keyword_bind {β : Type} {next : Unit → Rule β} {derived : List Token → Prop}
    {word : Keyword} (kind : t.kind = .keyword word)
    (h : (next ()).Begins fun us => derived (t :: us)) :
    ((keyword word >>= next) site (t :: later)).Begins (t :: later) derived := by
  have passed : keyword word site (t :: later) = .ok () later := keyword_eq_ok.mpr ⟨t, rfl, kind⟩
  rw [bind_apply, passed]
  exact Reply.Begins.append [t] (h site later)

/-- The inside of a statement can be completed, if the statements in it can. -/
theorem begins_body (item : statement.Begins IsStmt) (closed : ReadsClosed statement budget) :
    (body budget statement).Begins IsStmt := by
  intro site ts
  cases ts with
  | nil => exact begins_reject _ ⟨_, isStmt_empty⟩ site []
  | cons t later =>
    rw [body, line_bind, peek_bind, kindOf_cons]
    cases kind : t.kind with
    | keyword word =>
      cases word with
      | kwVar =>
        have named : (assignment budget).Begins fun us => IsStmt (t :: us) :=
          (begins_assignment budget).mono fun us named => named.declare kind
        exact begins_keyword_bind kind (named.bind_ok fun _ _ _ => ⟨_, rfl⟩)
      | kwIf =>
        refine begins_keyword_bind kind (Begins.within ?_ _)
        refine begins_condition_bind (fun us e tests => ⟨_, tests.ifThen kind isStmt_empty⟩)
          fun us e tests => ?_
        refine begins_item_bind item closed (fun vs inside => ⟨[], ?_⟩)
          fun vs s n rest site inside lone => ?_
        · rw [List.append_nil]
          exact tests.ifThen kind inside
        rw [peek_bind]
        split
        next turns =>
          -- an `else` comes here only if the statement before it has no use for it
          have nearest : s.endsOpen = false := by
            cases open? : s.endsOpen with
            | false => rfl
            | true => exact absurd turns (lone open?)
          obtain ⟨other, behind, rfl, turns⟩ := exists_cons_of_kindOf turns (by decide)
          refine begins_keyword_bind turns (Begins.bind_ok (item.mono fun ws elsewhere => ?_)
            fun _ _ _ => ⟨_, rfl⟩)
          exact tests.ifElse kind inside nearest turns elsewhere
        next => exact begins_pure _ site rest
      | kwElse => exact begins_reject _ ⟨_, isStmt_empty⟩ site _
      | kwWhile =>
        refine begins_keyword_bind kind (Begins.within ?_ _)
        refine begins_condition_bind (fun us e tests => ⟨_, tests.loop kind isStmt_empty⟩)
          fun us e tests => ?_
        exact (item.mono fun vs inside => tests.loop kind inside).bind_ok fun _ _ _ => ⟨_, rfl⟩
    | identifier =>
      have named : (assignment budget).Begins IsStmt :=
        (begins_assignment budget).mono fun us => IsAssignment.assign
      exact named.bind_ok (fun _ _ _ => ⟨_, rfl⟩) site _
    | openBrace => exact (begins_block item closed).bind_ok (fun _ _ _ => ⟨_, rfl⟩) site _
    | _ => exact begins_reject _ ⟨_, isStmt_empty⟩ site _

/-- A statement that was begun can be completed, by induction on the budget. -/
theorem begins_rule (budget : Nat) : (Stmt.rule budget).Begins IsStmt := by
  induction budget with
  | zero => exact begins_tooDeep.within _
  | succ budget ih => exact (begins_body ih (readsClosed_rule budget)).contain.within _

end Stmt

/-- A program that was begun can be completed. -/
theorem Program.begins_rule (budget : Nat) : (Program.rule budget).Begins Stmt.IsStmts :=
  Stmt.begins_many (Stmt.begins_rule budget) (Stmt.readsClosed_rule budget)

end ThreeAddress
