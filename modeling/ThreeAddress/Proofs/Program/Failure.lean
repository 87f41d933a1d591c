import ThreeAddress.Proofs.Program.Grammar
import ThreeAddress.Proofs.Token.Tiling

/-!
# Failures in place

A rule that fails leaves the token that it stopped at as the first one, and its error is located
there: the error names the line that was counted for the token, and its place is looked up from the
offset of the token. As long as the end of the input is a token, rules never read past it, so there
always is a token to stop at.

Behind tokens of a source the two ways to tell a place agree, so an error has one position.

## Main definitions

* `Site.Locates` says that an error is located at the first of some tokens.
* `Rule.InPlace` says that a rule fails in place; the rules of the grammar do.
* `Source.positions_agree` is the main result.
-/

namespace ThreeAddress

variable {α β : Type} {site : Site} {ts rest : List Token}

/-- The last of the tokens is one for the end of the input. -/
def EndsInput (ts : List Token) : Prop :=
  ∃ t, ts.getLast? = some t ∧ t.kind = .eof

theorem EndsInput.exists_cons (h : EndsInput ts) : ∃ t later, ts = t :: later := by
  obtain ⟨t, last, -⟩ := h
  cases ts with
  | nil => simp at last
  | cons t later => exact ⟨t, later, rfl⟩

/-- Behind a token of another kind the end of the input is still to come. -/
theorem EndsInput.tail (h : EndsInput ts) (more : kindOf ts ≠ .eof) : EndsInput ts.tail := by
  obtain ⟨t, last, kind⟩ := h
  cases ts with
  | nil => simp at last
  | cons s later =>
    cases later with
    | nil =>
      simp only [List.getLast?_singleton, Option.some_inj] at last
      exact absurd (last ▸ kind) more
    | cons u later => exact ⟨t, by simpa [List.getLast?_cons_cons] using last, kind⟩

/-- The error is located at the first of the tokens: by its file and its snippet, and by its line. -/
structure Site.Locates (site : Site) (ts : List Token) (error : Diagnostic ParseFault) : Prop where
  file : error.file = site.source.file
  snippet : error.snippet = site.source.locate? (site.lexemeOf ts).span.offset
  line : error.kind.line = site.lineOf ts

/-- Some of the tokens `ts` are left, the end of the input among them, and a failure is located at the
first of those. -/
inductive Reply.Stops (site : Site) (ts : List Token) : Reply α → Prop where
  | ok {a : α} {rest : List Token} (suffix : rest <:+ ts) (ends : EndsInput rest) : Stops site ts (.ok a rest)
  | fail {error : Diagnostic ParseFault} {rest : List Token} {raised : Nat} (suffix : rest <:+ ts)
      (ends : EndsInput rest) (located : site.Locates rest error) : Stops site ts (.fail error rest raised)

theorem Reply.Stops.mono {reply : Reply α} (h : reply.Stops site rest) (suffix : rest <:+ ts) :
    reply.Stops site ts := by
  cases h with
  | ok le ends => exact .ok (le.trans suffix) ends
  | fail le ends located => exact .fail (le.trans suffix) ends located

/-- The rule stops in place, wherever it is started before the end of the input. -/
def Rule.InPlace (rule : Rule α) : Prop :=
  ∀ site ts, EndsInput ts → (rule site ts).Stops site ts

namespace Rule

/-! ## Building blocks -/

theorem inPlace_pure (a : α) : (pure a : Rule α).InPlace := fun _ _ ends =>
  .ok List.suffix_rfl ends

/-- What comes next is started where the first rule stopped. -/
theorem stops_bind {rule : Rule α} {next : α → Rule β} (first : (rule site ts).Stops site ts)
    (others : ∀ a, (next a).InPlace) : ((rule >>= next) site ts).Stops site ts := by
  rw [bind_apply]
  generalize rule site ts = reply at first ⊢
  cases first with
  | ok suffix ends => exact (others _ _ _ ends).mono suffix
  | fail suffix ends located => exact .fail suffix ends located

theorem InPlace.bind {rule : Rule α} {next : α → Rule β} (first : rule.InPlace)
    (others : ∀ a, (next a).InPlace) : (rule >>= next).InPlace := fun _ _ ends =>
  stops_bind (first _ _ ends) others

theorem InPlace.discard {rule : Rule α} (h : rule.InPlace) : (discard rule : Rule PUnit).InPlace :=
  h.bind fun _ => inPlace_pure _

/-- A rule may go past a token that is not the end of the input. -/
theorem stops_advance_bind {next : Unit → Rule β} (ends : EndsInput ts) (more : kindOf ts ≠ .eof)
    (others : (next ()).InPlace) : ((advance >>= next) site ts).Stops site ts :=
  (others _ _ (ends.tail more)).mono (List.tail_suffix ts)

theorem inPlace_reject (wanted : Wanted) : (reject wanted : Rule α).InPlace := fun _ _ ends =>
  .fail List.suffix_rfl ends ⟨rfl, rfl, rfl⟩

theorem inPlace_tooDeep : (tooDeep : Rule α).InPlace := fun _ _ ends =>
  .fail List.suffix_rfl ends ⟨rfl, rfl, rfl⟩

theorem inPlace_eat {kind : TokenKind} (present : kind ≠ .eof) : (eat kind).InPlace := by
  intro site ts ends
  rw [eat, bind_apply, expect, peek_bind]
  by_cases here : kindOf ts = kind
  · simp only [here, if_true, pure_apply, lexeme_bind]
    exact stops_advance_bind ends (here ▸ present) (inPlace_pure _)
  · rw [if_neg here]
    exact inPlace_reject _ _ _ ends

theorem InPlace.within {rule : Rule α} (context : String) (h : rule.InPlace) :
    (within context rule).InPlace := by
  intro site ts ends
  have stops := h site ts ends
  rw [Rule.within]
  generalize rule site ts = reply at stops ⊢
  cases stops with
  | ok suffix ends => exact .ok suffix ends
  | fail suffix ends located => exact .fail suffix ends ⟨located.file, located.snippet, located.line⟩

theorem stops_link {rule : Rule α} (h : (rule site ts).Stops site ts) :
    (link rule site ts).Stops site ts := by
  rw [link]
  generalize rule site ts = reply at h ⊢
  cases h with
  | ok suffix ends => exact .ok suffix ends
  | fail suffix ends located => exact .fail suffix ends located

theorem InPlace.contain {rule : Rule α} (h : rule.InPlace) : (contain rule).InPlace := by
  intro site ts ends
  have stops := h site ts ends
  rw [Rule.contain]
  generalize rule site ts = reply at stops ⊢
  cases stops with
  | ok suffix ends => exact .ok suffix ends
  | fail suffix ends located => exact .fail suffix ends located

/-- Repetition stops where its last item does. -/
theorem InPlace.many {item : Rule α} (stop : TokenKind → Bool) (h : item.InPlace) :
    Rule.InPlace (many stop item) := by
  intro site ts
  induction len : ts.length using Nat.strongRecOn generalizing ts with
  | ind n ih =>
    subst len
    intro ends
    rw [Rule.many]
    split
    next => exact .ok List.suffix_rfl ends
    next =>
      have first := h site ts ends
      generalize item site ts = reply at first ⊢
      cases first with
      | fail suffix ends located => exact .fail suffix ends located
      | @ok a rest suffix ends =>
        dsimp only
        split
        next shrinks =>
          have others := ih _ shrinks _ rfl ends
          generalize Rule.many stop item site rest = reply at others ⊢
          cases others with
          | ok suffix' ends => exact .ok (suffix'.trans suffix) ends
          | fail suffix' ends located => exact .fail (suffix'.trans suffix) ends located
        next => exact .ok suffix ends

theorem inPlace_keyword (word : Keyword) : (keyword word).InPlace :=
  (inPlace_eat (by simp)).discard.within _

theorem inPlace_identifier : identifier.InPlace :=
  (inPlace_eat (by simp)).within _

end Rule

open Rule

/-! ## Expressions -/

namespace Expr

variable {budget : Nat} {level : Level}

theorem stops_literal (ends : EndsInput ts) (number : kindOf ts = .number) :
    (literal site ts).Stops site ts := by
  rw [literal, lexeme_bind]
  cases Decimal.word? (site.lexemeOf ts).text.toList with
  | some word => exact stops_advance_bind ends (by simp [number]) (inPlace_pure _)
  | none => exact .fail List.suffix_rfl ends ⟨rfl, rfl, rfl⟩

/-- What is no chain fails in place, if expressions with one level less do. -/
theorem inPlace_primary (less : ∀ b < budget, (chain b .comparison).InPlace) :
    (primary budget).InPlace := by
  have closes (inner : Expr) : Rule.InPlace do
      discard (within "as the end of the expression" (eat .closeParen))
      return inner :=
    ((inPlace_eat (by simp)).within _).discard.bind fun _ => inPlace_pure inner
  rw [primary]
  refine InPlace.within _ fun site ts ends => ?_
  rw [peek_bind]
  cases kind : kindOf ts with
  | openParen =>
    have more : kindOf ts ≠ .eof := by simp [kind]
    cases budget with
    | zero => exact stops_advance_bind ends more (inPlace_tooDeep.bind closes)
    | succ b => exact stops_advance_bind ends more ((less b b.lt_succ_self).contain.bind closes)
  | number => exact stops_literal ends kind
  | identifier =>
    simp only [lexeme_bind]
    exact stops_advance_bind ends (by simp [kind]) (inPlace_pure _)
  | _ => exact inPlace_reject _ _ _ ends

/-- The rest of a chain fails in place, if it does with one level less. -/
theorem inPlace_links (less : ∀ b < budget, (operand b level).InPlace ∧
    ∀ lhs, (links b level lhs).InPlace) (lhs : Expr) : (links budget level lhs).InPlace := by
  intro site ts ends
  rw [links, peek_bind]
  cases sign : level.operator? (kindOf ts) with
  | none => exact inPlace_pure _ _ _ ends
  | some op =>
    have more : kindOf ts ≠ .eof := by
      rw [← (Level.operator?_eq_some_iff.mp sign).2]
      exact op.token_ne_eof
    cases budget with
    | zero => exact inPlace_tooDeep _ _ ends
    | succ b =>
      obtain ⟨operand, links⟩ := less b b.lt_succ_self
      exact stops_link (stops_advance_bind ends more (operand.bind fun rhs => links _))

/-- All rules for expressions fail in place, by induction on the budget. -/
theorem inPlace_all (budget : Nat) :
    (∀ level, (operand budget level).InPlace) ∧ ∀ level lhs, (links budget level lhs).InPlace := by
  induction budget using Nat.strongRecOn with
  | ind budget ih =>
    -- operands of one budget build on one another; only links and parentheses go a level down
    have links (level : Level) (lhs : Expr) : (links budget level lhs).InPlace :=
      inPlace_links (fun b lt => ⟨(ih b lt).1 level, (ih b lt).2 level⟩) lhs
    have chain_of {b : Nat} {level : Level} (first : (operand b level).InPlace)
        (others : ∀ lhs, (Expr.links b level lhs).InPlace) : (chain b level).InPlace := by
      rw [chain]
      exact first.bind others
    have factor : (operand budget .factor).InPlace := by
      rw [operand]
      exact inPlace_primary fun b lt => chain_of ((ih b lt).1 _) ((ih b lt).2 _)
    have term : (operand budget .term).InPlace := by
      rw [operand]
      exact chain_of factor (links .factor)
    have comparison : (operand budget .comparison).InPlace := by
      rw [operand]
      exact chain_of term (links .term)
    exact ⟨fun level => by cases level <;> assumption, links⟩

theorem inPlace_rule (budget : Nat) : (Expr.rule budget).InPlace := by
  obtain ⟨operand, links⟩ := inPlace_all budget
  refine InPlace.within _ ?_
  rw [chain]
  exact (operand _).bind (links _)

end Expr

/-! ## Statements -/

namespace Stmt

variable {statement : Rule Stmt}

theorem inPlace_assignment (budget : Nat) : (assignment budget).InPlace :=
  inPlace_identifier.bind fun _ => (inPlace_eat (by simp)).discard.bind fun _ =>
    (Expr.inPlace_rule budget).bind fun _ => (inPlace_eat (by simp)).discard.bind fun _ =>
      inPlace_pure _

theorem inPlace_condition (budget : Nat) : (condition budget).InPlace :=
  .within _ <| (inPlace_eat (by simp)).discard.bind fun _ => (Expr.inPlace_rule budget).bind fun _ =>
    (inPlace_eat (by simp)).discard.bind fun _ => inPlace_pure _

theorem inPlace_block (inside : statement.InPlace) : (Block.rule statement).InPlace :=
  .within _ <| (inPlace_eat (by simp)).discard.bind fun _ => (inside.many _).bind fun _ =>
    (inPlace_eat (by simp)).discard.bind fun _ => inPlace_pure _

/-- The inside of a statement fails in place, if the statements in it do. -/
theorem inPlace_body (budget : Nat) (inside : statement.InPlace) : (body budget statement).InPlace := by
  intro site ts ends
  rw [body, line_bind, peek_bind]
  cases kind : kindOf ts with
  | keyword word =>
    cases word with
    | kwVar =>
      exact (inPlace_keyword _).bind (fun _ => (inPlace_assignment budget).bind fun _ => inPlace_pure _)
        _ _ ends
    | kwIf =>
      refine (inPlace_keyword _).bind (fun _ => .within _ <| (inPlace_condition budget).bind fun _ =>
        inside.bind fun _ site ts ends => ?_) _ _ ends
      rw [peek_bind]
      by_cases turns : kindOf ts = .keyword .kwElse
      · rw [if_pos turns]
        exact (inPlace_keyword _).bind (fun _ => inside.bind fun _ => inPlace_pure _) _ _ ends
      · rw [if_neg turns]
        exact inPlace_pure _ _ _ ends
    | kwElse => exact inPlace_reject _ _ _ ends
    | kwWhile =>
      exact (inPlace_keyword _).bind (fun _ => .within _ <| (inPlace_condition budget).bind fun _ =>
        inside.bind fun _ => inPlace_pure _) _ _ ends
  | identifier => exact (inPlace_assignment budget).bind (fun _ => inPlace_pure _) _ _ ends
  | openBrace => exact (inPlace_block inside).bind (fun _ => inPlace_pure _) _ _ ends
  | _ => exact inPlace_reject _ _ _ ends

theorem inPlace_rule (budget : Nat) : (Stmt.rule budget).InPlace := by
  induction budget with
  | zero => exact inPlace_tooDeep.within _
  | succ budget ih => exact (inPlace_body budget ih).contain.within _

end Stmt

theorem Program.inPlace_rule (budget : Nat) : (Program.rule budget).InPlace :=
  (Stmt.inPlace_rule budget).many _

/-! ## Positions -/

/-- The answer of a cursor tells of the text behind the place where it stands. -/
theorem Cursor.Stands.next {c : Cursor} {before : List Char} (h : c.Stands before) :
    (∀ t, c.next.1 = .ok (some t) → c.source.FirstToken c.offset t) ∧
      ∀ error, c.next.1 = .error error → c.source.Ends c.offset (.error error) := by
  cases munched : munch? c.skipTrivia.rest with
  | some found =>
    rw [next_of_munch? munched]
    refine ⟨fun t same => ?_, nofun⟩
    cases same
    exact h.firstToken munched
  | none =>
    cases left : c.skipTrivia.rest with
    | nil =>
      rw [next_of_rest_nil left]
      exact ⟨nofun, nofun⟩
    | cons char rest =>
      rw [left] at munched
      rw [next_of_unexpected left munched]
      refine ⟨nofun, fun error same => ?_⟩
      cases same
      exact h.ends_of_unexpected left munched

namespace Source

variable {source : Source} {start stop place : Nat} {position : Position} {t : Token}

/-- A position that was counted up to some place is found for the offset of the place. -/
theorem position_locate?_of_counted
    (counted : (source.slice? 0 place).map Position.behind = some position) :
    (source.locate? place).map Snippet.position = some position := by
  obtain ⟨before, cut, rfl⟩ := Option.map_eq_some_iff.mp counted
  obtain ⟨none, rest, text, start, rfl⟩ := slice?_eq_some_iff.mp cut
  rw [eq_nil_of_byteLength start, List.nil_append] at text
  rw [start, Nat.zero_add]
  exact position_locate? text

theorem position_locate?_endToken (source : Source) :
    (source.locate? source.endToken.span.offset).map Snippet.position =
      some source.endToken.position :=
  position_locate? (List.append_nil source.chars).symm

/-- Where the tokens end with a failure, its position is the one that was counted. -/
theorem Ends.position_error {error : Diagnostic LexFault} (h : source.Ends start (.error error)) :
    ∃ char position, error.kind = .unexpectedChar char position ∧ error.position = some position := by
  cases h with
  | stuck _ _ counted => exact ⟨_, _, rfl, position_locate?_of_counted counted⟩

/-- The tokens that a cursor has left agree with their offsets, and so does the failure that it comes
to. -/
theorem position_tokens {c : Cursor} {before : List Char} (h : c.Stands before) :
    (∀ ts, c.tokens = .ok ts → EndsInput ts ∧ ∀ t ∈ ts,
        (c.source.locate? t.span.offset).map Snippet.position = some t.position) ∧
      ∀ error, c.tokens = .error error →
        ∃ char position, error.kind = .unexpectedChar char position ∧
          error.position = some position := by
  obtain ⟨ts, stop, result, tiles, ends, read⟩ := h.exists_tiles
  rw [read]
  cases result with
  | error failure =>
    refine ⟨nofun, fun error same => ?_⟩
    cases same
    exact ends.position_error
  | ok last =>
    refine ⟨fun all same => ?_, nofun⟩
    cases same
    cases ends
    -- a token was counted at its place, and the end of the input is where the text ends
    refine ⟨⟨c.source.endToken, List.getLast?_concat, rfl⟩, fun t mem => ?_⟩
    rcases List.mem_append.mp mem with mem | mem
    · obtain ⟨_, first⟩ := tiles.exists_firstToken t mem
      exact position_locate?_of_counted first.position
    · rw [List.mem_singleton.mp mem]
      exact c.source.position_locate?_endToken

/-- The two ways to tell a place agree. The position that is counted for a token, at whatever place
of the source the cursor was asked, is the one that is found for its offset, also at the end of the
input. So an error of the lexer has the position that its fault names. An error in the grammar is
located at the token that reading stopped at: it has the position of that token, and its fault names
the line. -/
theorem positions_agree (source : Source) :
    (∀ n t, ((source.cursorAfter n).next.1 = .ok (some t) ∨
          ∃ ts, (source.cursorAfter n).tokens = .ok ts ∧ t ∈ ts) →
        (source.locate? t.span.offset).map Snippet.position = some t.position) ∧
      (∀ n error, ((source.cursorAfter n).next.1 = .error error ∨
          (source.cursorAfter n).tokens = .error error) →
        ∃ char position, error.kind = .unexpectedChar char position ∧
          error.position = some position) ∧
      ∀ tokens error, source.tokenize = .ok tokens → Program.ofTokens source tokens = .error error →
        ∃ read t later raised, tokens = read ++ t :: later ∧
          Program.rule maxNesting (.ofTokens source tokens) tokens = .fail error (t :: later) raised ∧
          error.position = some t.position ∧ error.kind.line = t.position.line := by
  refine ⟨fun n t comes => ?_, fun n error comes => ?_, fun tokens error lexed refused => ?_⟩
  · obtain ⟨before, stands, same⟩ := source.stands_cursorAfter n
    rw [← same]
    rcases comes with next | ⟨ts, all, mem⟩
    · exact position_locate?_of_counted (stands.next.1 t next).position
    · exact ((position_tokens stands).1 ts all).2 t mem
  · obtain ⟨before, stands, same⟩ := source.stands_cursorAfter n
    rcases comes with next | all
    · exact (stands.next.2 error next).position_error
    · exact (position_tokens stands).2 error all
  · obtain ⟨ends, agree⟩ := (position_tokens (Cursor.stands_ofSource source)).1 tokens lexed
    have stops := Program.inPlace_rule maxNesting (.ofTokens source tokens) tokens ends
    rw [Program.ofTokens] at refused
    generalize Program.rule maxNesting (.ofTokens source tokens) tokens = outcome at stops refused
    cases stops with
    | ok => cases refused
    | @fail _ rest raised suffix ends located =>
      cases refused
      obtain ⟨t, later, rfl⟩ := ends.exists_cons
      obtain ⟨read, split⟩ := suffix
      refine ⟨read, t, later, raised, split.symm, rfl, ?_, located.line⟩
      rw [Diagnostic.position, located.snippet]
      exact agree t (by simp [← split])

/-- A statement that begins with an equals sign, behind a comment, and a text that ends inside an
operator. -/
theorem positions_agree_comment :
    let source : Source := ⟨"//é\n = 1;", none⟩
    let short : Source := ⟨"\n!", none⟩
    (∃ tokens error t, source.tokenize = .ok tokens ∧ t ∈ tokens ∧
        (source.locate? t.span.offset).map Snippet.position = some t.position ∧
        Program.ofTokens source tokens = .error error ∧ error.position = some t.position ∧
        error.kind.line = t.position.line) ∧
      ∃ error char position, short.tokenize = .error error ∧
        error.kind = .unexpectedChar char position ∧ error.position = some position := by
  intro source short
  obtain ⟨tokens, error, lexed, refused⟩ : ∃ tokens error, source.tokenize = .ok tokens ∧
      Program.ofTokens source tokens = .error error := by
    have fails : (source.tokenize.toOption.map fun tokens => (Program.ofTokens source tokens).isOk) =
        some false := by decide +kernel
    cases lexed : source.tokenize with
    | error => simp [lexed, Except.toOption] at fails
    | ok tokens =>
      cases parsed : Program.ofTokens source tokens with
      | error error => exact ⟨tokens, error, rfl, parsed⟩
      | ok => simp [lexed, parsed, Except.toOption, Except.isOk, Except.toBool] at fails
  obtain ⟨stuck, fails⟩ : ∃ error, short.tokenize = .error error := by
    have fails : short.tokenize.isOk = false := by decide +kernel
    cases lexed : short.tokenize with
    | error error => exact ⟨error, rfl⟩
    | ok => simp [lexed, Except.isOk, Except.toBool] at fails
  obtain ⟨agree, -, located⟩ := positions_agree source
  obtain ⟨read, t, later, -, split, -, position, line⟩ := located tokens error lexed refused
  have mem : t ∈ tokens := by simp [split]
  obtain ⟨char, place, kind, found⟩ := (positions_agree short).2.1 0 stuck (.inr fails)
  exact ⟨⟨tokens, error, t, lexed, mem, agree 0 t (.inr ⟨tokens, lexed, mem⟩), refused, position, line⟩,
    stuck, char, place, fails, kind, found⟩

end Source

end ThreeAddress
