import ThreeAddress.Proofs.Program.Completeness
import ThreeAddress.Proofs.Program.Failure
import ThreeAddress.Proofs.Program.Prefix

/-!
# Unwanted tokens are found at once

The kind of the next token decides how a rule goes on. So two readings of tokens that have the same
kinds up to some mark do the same up to there, each within its budget: where one finds an unwanted
token no later than at the mark, the other does not succeed, whatever comes behind the mark.

What was read before can be completed. So a syntax error is located at the first token with which
the tokens before it begin no program.

## Main definitions

* `SameKinds` says that tokens have the same kinds up to a mark.
* `Rule.Leads` says that a rule finds an unwanted token only where another one cannot succeed either;
  the rules of the grammar do, for any two budgets.
* `IsSentence` says that kinds of tokens are those of a program.
* `Source.unexpected_earliest` is the main result.
-/

namespace ThreeAddress

open Rule

variable {α β : Type} {mark mark' ts ts' : List Token}

/-- Two lists of tokens have the same kinds up to the marks, at which the same kind comes next. -/
inductive SameKinds (mark mark' : List Token) : List Token → List Token → Prop where
  | mark (more : mark ≠ []) (same : kindOf mark = kindOf mark') : SameKinds mark mark' mark mark'
  | cons {t t' : Token} {ts ts' : List Token} (same : t.kind = t'.kind)
      (later : SameKinds mark mark' ts ts') : SameKinds mark mark' (t :: ts) (t' :: ts')

namespace SameKinds

theorem kindOf_eq (h : SameKinds mark mark' ts ts') : kindOf ts = kindOf ts' := by
  cases h with
  | mark _ same => exact same
  | cons same => exact same

theorem tail (h : SameKinds mark mark' ts ts') (before : mark <:+ ts.tail) :
    SameKinds mark mark' ts.tail ts'.tail := by
  cases h with
  | mark more =>
    have shorter := before.length_le
    have some := List.length_pos_iff.mpr more
    rw [List.length_tail] at shorter
    omega
  | cons _ later => exact later

theorem length_add (h : SameKinds mark mark' ts ts') :
    ts.length + mark'.length = ts'.length + mark.length := by
  induction h with
  | mark => exact Nat.add_comm _ _
  | cons _ _ ih =>
    simp only [List.length_cons]
    omega

/-- Tokens of the same kinds, and the marks behind them. -/
theorem of_map_eq {before before' : List Token} (kinds : before.map Token.kind = before'.map Token.kind)
    (more : mark ≠ []) (same : kindOf mark = kindOf mark') :
    SameKinds mark mark' (before ++ mark) (before' ++ mark') := by
  induction before generalizing before' with
  | nil =>
    obtain rfl : before' = [] := by simpa using kinds.symm
    exact .mark more same
  | cons t later ih =>
    cases before' with
    | nil => cases kinds
    | cons t' later' =>
      simp only [List.map_cons, List.cons.injEq] at kinds
      exact .cons kinds.1 (ih kinds.2)

end SameKinds

/-- If a reading has not gone past the mark and the other one succeeds, then the two have come to the
same place, or the first one failed but not at an unwanted token. -/
def Reply.Leads (mark mark' : List Token) (reply reply' : Reply α) : Prop :=
  mark <:+ reply.rest → ∀ a rest', reply' = .ok a rest' →
    match reply with
    | .ok _ rest => SameKinds mark mark' rest rest'
    | .fail error _ _ => error.kind.found? = none

/-- The rule finds an unwanted token only where the other rule does not succeed either, on tokens of
the same kinds as far as the rule has read. -/
structure Rule.Leads (rule rule' : Rule α) : Prop where
  suffix : ∀ site ts, (rule site ts).rest <:+ ts
  leads : ∀ {mark mark' ts ts'} site site', SameKinds mark mark' ts ts' →
    (rule site ts).Leads mark mark' (rule' site' ts')

namespace Rule

/-! ## Building blocks -/

theorem leads_pure (a a' : α) : (pure a : Rule α).Leads (pure a') where
  suffix _ _ := List.suffix_rfl
  leads := by
    rintro mark mark' ts ts' site site' agree - _ _ ⟨⟩
    exact agree

/-- What comes next is compared where both rules succeeded. -/
theorem Leads.bind {rule rule' : Rule α} {next next' : α → Rule β} (first : rule.Leads rule')
    (others : ∀ a a', (next a).Leads (next' a')) : (rule >>= next).Leads (rule' >>= next') where
  suffix site ts := by
    have before := first.suffix site ts
    rw [bind_apply]
    cases reply : rule site ts with
    | fail => rwa [reply] at before
    | ok a rest =>
      rw [reply] at before
      exact ((others a a).suffix site rest).trans before
  leads := by
    intro mark mark' ts ts' site site' agree before b rest' read
    obtain ⟨a', middle', read, read'⟩ := bind_eq_ok.mp read
    have same := first.leads site site' agree
    rw [bind_apply] at before ⊢
    cases reply : rule site ts with
    | fail error rest raised =>
      rw [reply] at before same
      exact same before a' middle' read
    | ok a rest =>
      rw [reply] at before same
      have passed := before.trans ((others a a').suffix site rest)
      exact (others a a').leads site site' (same passed a' middle' read) before b rest' read'

theorem Leads.discard {rule rule' : Rule α} (h : rule.Leads rule') :
    (discard rule : Rule PUnit).Leads (discard rule') :=
  h.bind fun _ _ => leads_pure _ _

/-- Both rules see the same kind. -/
theorem leads_peek_bind {next next' : TokenKind → Rule β} (h : ∀ kind, (next kind).Leads (next' kind)) :
    (peek >>= next).Leads (peek >>= next') where
  suffix site ts := (h (kindOf ts)).suffix site ts
  leads site site' agree := by
    rw [peek_bind, peek_bind, ← agree.kindOf_eq]
    exact (h _).leads site site' agree

theorem leads_lexeme : lexeme.Leads lexeme where
  suffix _ _ := List.suffix_rfl
  leads := by
    rintro mark mark' ts ts' site site' agree - _ _ ⟨⟩
    exact agree

theorem leads_line : line.Leads line where
  suffix _ _ := List.suffix_rfl
  leads := by
    rintro mark mark' ts ts' site site' agree - _ _ ⟨⟩
    exact agree

theorem leads_advance : advance.Leads advance where
  suffix _ ts := List.tail_suffix ts
  leads := by
    rintro mark mark' ts ts' site site' agree before _ _ ⟨⟩
    exact agree.tail before

/-- What never succeeds is led by everything. -/
theorem leads_of_ne_ok {rule rule' : Rule α} (suffix : ∀ site ts, (rule site ts).rest <:+ ts)
    (never : ∀ site ts a rest, rule' site ts ≠ .ok a rest) : rule.Leads rule' where
  suffix := suffix
  leads := by
    intro mark mark' ts ts' site site' agree _ a rest' read
    exact absurd read (never site' ts' a rest')

/-- What fails, but not at an unwanted token, leads everything. -/
theorem leads_of_found? {rule rule' : Rule α} (fails : ∀ site ts, ∃ error raised,
    rule site ts = .fail error ts raised ∧ error.kind.found? = none) : rule.Leads rule' where
  suffix site ts := by
    obtain ⟨error, raised, same, -⟩ := fails site ts
    rw [same]
    exact List.suffix_rfl
  leads := by
    intro mark mark' ts ts' site site' agree _ a rest' read
    obtain ⟨error, raised, same, unfound⟩ := fails site ts
    rw [same]
    exact unfound

theorem leads_reject (wanted : Wanted) : (reject wanted : Rule α).Leads (reject wanted) :=
  leads_of_ne_ok (fun _ _ => List.suffix_rfl) fun _ _ _ _ => reject_ne_ok

theorem leads_tooDeep {rule : Rule α} : tooDeep.Leads rule :=
  leads_of_found? fun _ _ => ⟨_, _, rfl, rfl⟩

theorem Leads.tooDeep {rule rule' : Rule α} (h : rule.Leads rule') : rule.Leads tooDeep :=
  leads_of_ne_ok h.suffix fun _ _ _ _ => tooDeep_ne_ok

theorem leads_eat (kind : TokenKind) : (eat kind).Leads (eat kind) := by
  have expects : (expect kind).Leads (expect kind) := leads_peek_bind fun here => by
    split
    next => exact leads_pure _ _
    next => exact leads_reject _
  exact expects.bind fun _ _ => leads_lexeme.bind fun _ _ => leads_advance.bind fun _ _ => leads_pure _ _

/-- A rule that only tells a failure otherwise leads what it led before. -/
theorem Leads.of_retells {rule rule' told told' : Rule α} (h : rule.Leads rule')
    (retells : ∀ site ts, (rule site ts).Retells (told site ts))
    (retells' : ∀ site ts, (rule' site ts).Retells (told' site ts)) : told.Leads told' where
  suffix site ts := by
    rw [← (retells site ts).rest_eq]
    exact h.suffix site ts
  leads := by
    intro mark mark' ts ts' site site' agree before a rest' read
    rw [← (retells site ts).rest_eq] at before
    have same := h.leads site site' agree before a rest' ((retells' site' ts').of_ok read)
    have retold := retells site ts
    generalize rule site ts = reply, told site ts = retelling at same retold
    cases retold with
    | ok => exact same
    | fail alike => exact (congrArg ParseFault.found? alike).symm.trans same

theorem Leads.within {rule rule' : Rule α} (h : rule.Leads rule') (context : String) :
    (within context rule).Leads (within context rule') :=
  h.of_retells (retells_within context rule) (retells_within context rule')

theorem Leads.link {rule rule' : Rule α} (h : rule.Leads rule') : (link rule).Leads (link rule') :=
  h.of_retells (retells_link rule) (retells_link rule')

theorem Leads.contain {rule rule' : Rule α} (h : rule.Leads rule') :
    (contain rule).Leads (contain rule') :=
  h.of_retells (retells_contain rule) (retells_contain rule')

theorem leads_keyword (word : Keyword) : (keyword word).Leads (keyword word) :=
  (leads_eat _).discard.within _

theorem leads_identifier : identifier.Leads identifier :=
  (leads_eat _).within _

/-- Repetition leaves what its last item leaves. -/
theorem rest_many_suffix {item : Rule α} (suffix : ∀ site ts, (item site ts).rest <:+ ts)
    (stop : TokenKind → Bool) (site : Site) (ts : List Token) : (many stop item site ts).rest <:+ ts := by
  induction len : ts.length using Nat.strongRecOn generalizing ts with
  | ind n ih =>
    subst len
    have before := suffix site ts
    rw [many]
    split
    next => exact List.suffix_rfl
    next =>
      cases reply : item site ts with
      | fail => rwa [reply] at before
      | ok a rest =>
        rw [reply] at before
        dsimp only
        split
        next shrinks =>
          have others := ih _ shrinks rest rfl
          cases later : many stop item site rest with
          | ok | fail =>
            rw [later] at others
            exact others.trans before
        next => exact before

/-- Repetition goes on alike: the next items begin at the same kind of token, and both take some tokens
or neither does. -/
theorem Leads.many {item item' : Rule α} (h : item.Leads item') (stop : TokenKind → Bool) :
    Rule.Leads (many stop item) (many stop item') where
  suffix := rest_many_suffix h.suffix stop
  leads := by
    intro mark mark' ts ts' site site' agree
    induction len : ts.length using Nat.strongRecOn generalizing ts ts' with
    | ind n ih =>
      subst len
      intro before as rest' read
      have begins := agree.kindOf_eq
      have lengths := agree.length_add
      have first := h.leads site site' agree
      rw [Rule.many, begins] at before ⊢
      rcases many_eq_ok.mp read with ⟨stops, rfl, rfl⟩ | ⟨a', middle', goes, read', goesOn⟩
      · rw [if_pos stops]
        exact agree
      · rw [if_neg goes] at before ⊢
        cases reply : item site ts with
        | fail error rest raised =>
          rw [reply] at before first
          exact first before a' middle' read'
        | ok a middle =>
          simp only [reply] at before first ⊢
          -- both items are short or neither is, once both have come to the same place
          by_cases shrinks : middle.length < ts.length
          · rw [if_pos shrinks] at before ⊢
            have left := rest_many_suffix h.suffix stop site middle
            have others (middle' : List Token) (middles : SameKinds mark mark' middle middle') :=
              ih _ shrinks middles rfl
            cases later : Rule.many stop item site middle with
            | ok | fail =>
              rw [later] at left others
              rw [later] at before
              have middles := first (before.trans left) a' middle' read'
              have lengths' := middles.length_add
              obtain ⟨-, later', read'', -⟩ := goesOn.resolve_right fun stays => by omega
              exact others middle' middles before later' rest' read''
          · rw [if_neg shrinks] at before ⊢
            have middles := first before a' middle' read'
            have lengths' := middles.length_add
            obtain ⟨-, -, rfl⟩ := goesOn.resolve_left fun ⟨shrinks', _⟩ => by omega
            exact middles

end Rule

/-! ## Expressions -/

namespace Expr

variable {budget : Nat} {level : Level}

/-- A literal of one reading may be refused in the other. -/
theorem leads_literal : literal.Leads literal := by
  refine leads_lexeme.bind fun here here' => ?_
  have passes (value value' : Expr) : Rule.Leads (do advance; return value) (do advance; return value') :=
    leads_advance.bind fun _ _ => leads_pure _ _
  cases Decimal.word? here.text.toList with
  | some word =>
    cases Decimal.word? here'.text.toList with
    | some word' => exact passes _ _
    | none => exact leads_of_ne_ok (passes _ (.name here)).suffix fun _ _ _ _ => failAt_ne_ok
  | none => exact leads_of_found? fun _ _ => ⟨_, _, rfl, rfl⟩

theorem leads_primary (less : ∀ b < budget, ∀ b', (chain b .comparison).Leads (chain b' .comparison))
    (budget' : Nat) : (primary budget).Leads (primary budget') := by
  have closes (inner inner' : Expr) : Rule.Leads
      (do discard (within "as the end of the expression" (eat .closeParen)); return inner)
      (do discard (within "as the end of the expression" (eat .closeParen)); return inner') :=
    ((leads_eat _).within _).discard.bind fun _ _ => leads_pure _ _
  rw [primary, primary]
  refine Leads.within (leads_peek_bind fun kind => ?_) _
  cases kind with
  | openParen =>
    refine leads_advance.bind fun _ _ => ?_
    cases budget with
    | zero => exact leads_of_found? fun _ _ => ⟨_, _, rfl, rfl⟩
    | succ b =>
      have inside (b' : Nat) := (less b b.lt_succ_self b').contain
      cases budget' with
      | zero => exact (inside 0).tooDeep.bind closes
      | succ b' => exact (inside b').bind closes
  | number => exact leads_literal
  | identifier => exact leads_lexeme.bind fun _ _ => leads_advance.bind fun _ _ => leads_pure _ _
  | _ => exact leads_reject _

theorem leads_links (less : ∀ b < budget, ∀ b', (operand b level).Leads (operand b' level) ∧
    ∀ lhs lhs', (links b level lhs).Leads (links b' level lhs')) (budget' : Nat) (lhs lhs' : Expr) :
    (links budget level lhs).Leads (links budget' level lhs') := by
  rw [links, links]
  refine leads_peek_bind fun kind => ?_
  cases level.operator? kind with
  | none => exact leads_pure _ _
  | some op =>
    cases budget with
    | zero => exact leads_tooDeep
    | succ b =>
      have next (b' : Nat) : Rule.Leads
          (link do advance; let rhs ← operand b level; links b level (.binary op lhs rhs))
          (link do advance; let rhs ← operand b' level; links b' level (.binary op lhs' rhs)) := by
        obtain ⟨operand, links⟩ := less b b.lt_succ_self b'
        exact (leads_advance.bind fun _ _ => operand.bind fun _ _ => links _ _).link
      cases budget' with
      | zero => exact (next 0).tooDeep
      | succ b' => exact next b'

/-- All rules for expressions, by induction on the budget of the first reading. -/
theorem leads_all (budget budget' : Nat) :
    (∀ level, (operand budget level).Leads (operand budget' level)) ∧
      ∀ level lhs lhs', (links budget level lhs).Leads (links budget' level lhs') := by
  induction budget using Nat.strongRecOn generalizing budget' with
  | ind budget ih =>
    have links (level : Level) (lhs lhs' : Expr) :
        (links budget level lhs).Leads (links budget' level lhs') :=
      leads_links (fun b lt b' => ⟨(ih b lt b').1 level, (ih b lt b').2 level⟩) budget' lhs lhs'
    have chain_of {b b' : Nat} {level : Level} (first : (operand b level).Leads (operand b' level))
        (others : ∀ lhs lhs', (Expr.links b level lhs).Leads (Expr.links b' level lhs')) :
        (chain b level).Leads (chain b' level) := by
      rw [chain, chain]
      exact first.bind others
    have factor : (operand budget .factor).Leads (operand budget' .factor) := by
      rw [operand, operand]
      exact leads_primary (fun b lt b' => chain_of ((ih b lt b').1 _) ((ih b lt b').2 _)) budget'
    have term : (operand budget .term).Leads (operand budget' .term) := by
      rw [operand, operand]
      exact chain_of factor (links .factor)
    have comparison : (operand budget .comparison).Leads (operand budget' .comparison) := by
      rw [operand, operand]
      exact chain_of term (links .term)
    exact ⟨fun level => by cases level <;> assumption, links⟩

theorem leads_rule (budget budget' : Nat) : (Expr.rule budget).Leads (Expr.rule budget') := by
  obtain ⟨operand, links⟩ := leads_all budget budget'
  refine Leads.within ?_ _
  rw [chain, chain]
  exact (operand _).bind (links _)

end Expr

/-! ## Statements -/

namespace Stmt

variable {statement statement' : Rule Stmt}

theorem leads_assignment (budget budget' : Nat) : (assignment budget).Leads (assignment budget') :=
  leads_identifier.bind fun _ _ => (leads_eat _).discard.bind fun _ _ =>
    (Expr.leads_rule budget budget').bind fun _ _ => (leads_eat _).discard.bind fun _ _ =>
      leads_pure _ _

theorem leads_condition (budget budget' : Nat) : (condition budget).Leads (condition budget') :=
  .within ((leads_eat _).discard.bind fun _ _ => (Expr.leads_rule budget budget').bind fun _ _ =>
    (leads_eat _).discard.bind fun _ _ => leads_pure _ _) _

theorem leads_block (inside : statement.Leads statement') :
    (Block.rule statement).Leads (Block.rule statement') :=
  .within ((leads_eat _).discard.bind fun _ _ => (inside.many _).bind fun _ _ =>
    (leads_eat _).discard.bind fun _ _ => leads_pure _ _) _

/-- The inside of a statement, if the statements in it do so. -/
theorem leads_body (budget budget' : Nat) (inside : statement.Leads statement') :
    (body budget statement).Leads (body budget' statement') := by
  refine leads_line.bind fun _ _ => leads_peek_bind fun kind => ?_
  cases kind with
  | keyword word =>
    cases word with
    | kwVar =>
      exact (leads_keyword _).bind fun _ _ => (leads_assignment budget budget').bind fun _ _ =>
        leads_pure _ _
    | kwIf =>
      refine (leads_keyword _).bind fun _ _ => .within ((leads_condition budget budget').bind
        fun _ _ => inside.bind fun _ _ => leads_peek_bind fun kind => ?_) _
      by_cases turns : kind = .keyword .kwElse
      · rw [if_pos turns, if_pos turns]
        exact (leads_keyword _).bind fun _ _ => inside.bind fun _ _ => leads_pure _ _
      · rw [if_neg turns, if_neg turns]
        exact leads_pure _ _
    | kwElse => exact leads_reject _
    | kwWhile =>
      exact (leads_keyword _).bind fun _ _ => .within ((leads_condition budget budget').bind
        fun _ _ => inside.bind fun _ _ => leads_pure _ _) _
  | identifier => exact (leads_assignment budget budget').bind fun _ _ => leads_pure _ _
  | openBrace => exact (leads_block inside).bind fun _ _ => leads_pure _ _
  | _ => exact leads_reject _

/-- The rules for statements, by induction on the budget of the first reading. -/
theorem leads_rule (budget budget' : Nat) : (Stmt.rule budget).Leads (Stmt.rule budget') := by
  induction budget generalizing budget' with
  | zero => exact leads_of_found? fun _ _ => ⟨_, _, rfl, rfl⟩
  | succ budget ih =>
    have next (budget' : Nat) := (leads_body budget budget' (ih budget')).contain
    cases budget' with
    | zero => exact (next 0).tooDeep.within _
    | succ budget' => exact (next budget').within _

end Stmt

theorem Program.leads_rule (budget budget' : Nat) : (Program.rule budget).Leads (Program.rule budget') :=
  (Stmt.leads_rule budget budget').many _

/-! ## Sentences -/

/-- The kinds are those of the tokens of a program, however deep it nests. -/
def IsSentence (kinds : List TokenKind) : Prop :=
  ∃ ts program n, Stmt.DerivesAll ts program n ∧ ts.map Token.kind = kinds

theorem kindOf_eq_head? (ts : List Token) : kindOf ts = (ts.map Token.kind).head?.getD .eof := by
  cases ts <;> rfl

/-- What was read before an unwanted token is the beginning of a sentence. -/
theorem Program.exists_isSentence {budget raised : Nat} {site : Site} {error : Diagnostic ParseFault}
    {found : TokenKind} {read rest : List Token}
    (failed : Program.rule budget site (read ++ rest) = .fail error rest raised)
    (unwanted : error.kind.found? = some found) :
    found = kindOf rest ∧ ∃ more, IsSentence (read.map Token.kind ++ more) := by
  have begins := Program.begins_rule budget site (read ++ rest)
  rw [failed] at begins
  obtain ⟨here, used, more, split, program, n, derived⟩ := begins found unwanted
  obtain rfl := List.append_cancel_right split
  exact ⟨here, more.map Token.kind, read ++ more, program, n, derived, List.map_append⟩

/-- With an unwanted token, what was read before it begins no sentence; and where the end of the input
is unwanted, it is none. -/
theorem Program.not_isSentence {budget raised : Nat} {site : Site} {error : Diagnostic ParseFault}
    {found : TokenKind} {read rest : List Token} {kinds : List TokenKind}
    (failed : Program.rule budget site (read ++ rest) = .fail error rest raised)
    (unwanted : error.kind.found? = some found) (more : rest ≠ [])
    (same : kinds.head?.getD .eof = kindOf rest) : ¬IsSentence (read.map Token.kind ++ kinds) := by
  rintro ⟨ts, program, n, derived, split⟩
  obtain ⟨before, behind, rfl, kinds_before, rfl⟩ := List.map_eq_append_iff.mp split
  have agree : SameKinds rest behind (read ++ rest) (before ++ behind) :=
    .of_map_eq kinds_before.symm more (by rw [← same, kindOf_eq_head?])
  have sentence := Program.read_of_derives derived (Nat.le_refl n) site (show kindOf [] = .eof from rfl)
  rw [List.append_nil] at sentence
  have led := (Program.leads_rule budget n).leads site site agree
  rw [failed] at led
  have unfound : error.kind.found? = none := led List.suffix_rfl program [] sentence
  rw [unwanted] at unfound
  cases unfound

namespace Source

variable {source : Source} {tokens : List Token} {error : Diagnostic ParseFault}

/-- Where the tokens of a source are refused, reading stopped at one of them, and the error has its
position. -/
theorem exists_stop (lexed : source.tokenize = .ok tokens)
    (refused : Program.ofTokens source tokens = .error error) :
    ∃ read t later raised, tokens = read ++ t :: later ∧
      Program.rule maxNesting (.ofTokens source tokens) tokens = .fail error (t :: later) raised ∧
      error.position = some t.position := by
  obtain ⟨ends, agree⟩ := (position_tokens (Cursor.stands_ofSource source)).1 tokens lexed
  have stops := Program.inPlace_rule maxNesting (.ofTokens source tokens) tokens ends
  rw [Program.ofTokens] at refused
  generalize Program.rule maxNesting (.ofTokens source tokens) tokens = outcome at stops refused
  cases stops with
  | ok => cases refused
  | @fail _ rest raised suffix ends located =>
    cases refused
    obtain ⟨t, later, rfl⟩ := ends.exists_cons
    obtain ⟨read, rfl⟩ := suffix
    refine ⟨read, t, later, raised, rfl, rfl, ?_⟩
    rw [Diagnostic.position, located.snippet]
    exact agree t (by simp)

/-- A syntax error is found at the earliest token. Where the tokens of a source are refused because of
an unwanted token, the error is located at a token of the found kind. The kinds of the tokens before it
can be completed to a sentence, however deep that nests; with the kind of the token itself they cannot,
and if it is the end of the input, the tokens before it are no sentence. -/
theorem unexpected_earliest {wanted : Wanted} {found : TokenKind} {line : Nat}
    (lexed : source.tokenize = .ok tokens) (refused : Program.ofTokens source tokens = .error error)
    (unwanted : error.kind = .expected wanted found line) :
    ∃ read t later raised, tokens = read ++ t :: later ∧
      Program.rule maxNesting (.ofTokens source tokens) tokens = .fail error (t :: later) raised ∧
      error.position = some t.position ∧ found = t.kind ∧
      (∃ more, IsSentence (read.map Token.kind ++ more)) ∧
      (∀ more, ¬IsSentence (read.map Token.kind ++ t.kind :: more)) ∧
      (t.kind = .eof → ¬IsSentence (read.map Token.kind)) := by
  obtain ⟨read, t, later, raised, rfl, failed, position⟩ := exists_stop lexed refused
  have found? : error.kind.found? = some found := by
    rw [unwanted]
    rfl
  obtain ⟨here, completed⟩ := Program.exists_isSentence failed found?
  refine ⟨read, t, later, raised, rfl, failed, position, here, completed, fun more => ?_, fun ends => ?_⟩
  · exact Program.not_isSentence failed found? (List.cons_ne_nil t later) rfl
  · rw [← List.append_nil (read.map Token.kind)]
    exact Program.not_isSentence failed found? (List.cons_ne_nil t later) ends.symm

/-- A parenthesis that is not closed, in the body of a loop. -/
theorem unexpected_earliest_parenthesis :
    let source : Source := ⟨"while (a < 2)\n  b = (1 + 2;", none⟩
    ∃ tokens error, source.tokenize = .ok tokens ∧ Program.ofTokens source tokens = .error error ∧
      error.kind = .expected (.kind .closeParen) .semicolon 2 ∧
      ∃ read t later, tokens = read ++ t :: later ∧ error.position = some t.position ∧
        t.kind = .semicolon ∧ (∃ more, IsSentence (read.map Token.kind ++ more)) ∧
        ∀ more, ¬IsSentence (read.map Token.kind ++ .semicolon :: more) := by
  intro source
  obtain ⟨tokens, error, lexed, refused, unwanted⟩ : ∃ tokens error, source.tokenize = .ok tokens ∧
      Program.ofTokens source tokens = .error error ∧
      error.kind = .expected (.kind .closeParen) .semicolon 2 := by
    have fails : (source.tokenize.toOption.bind fun tokens =>
        (((Program.ofTokens source tokens).map fun _ => false).tryCatch fun error =>
          .ok (error.kind = .expected (.kind .closeParen) .semicolon 2)).toOption) = some true := by
      decide +kernel
    cases lexed : source.tokenize with
    | error => simp [lexed, Except.toOption] at fails
    | ok tokens =>
      rw [lexed] at fails
      change (((Program.ofTokens source tokens).map fun _ => false).tryCatch _).toOption = _ at fails
      cases parsed : Program.ofTokens source tokens with
      | ok =>
        rw [parsed] at fails
        cases fails
      | error error =>
        rw [parsed] at fails
        exact ⟨tokens, error, rfl, parsed, of_decide_eq_true (Option.some.inj fails)⟩
  obtain ⟨read, t, later, raised, split, -, position, kind, completed, refuted, -⟩ :=
    unexpected_earliest lexed refused unwanted
  rw [← kind] at refuted
  exact ⟨tokens, error, lexed, refused, unwanted, read, t, later, split, position, kind.symm, completed,
    refuted⟩

end Source

end ThreeAddress
