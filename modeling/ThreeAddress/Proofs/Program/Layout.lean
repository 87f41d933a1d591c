import ThreeAddress.Program.Grammar

/-!
# Programs and their layout

What a rule makes of some tokens depends on their kinds and their texts only. Places go into the names
and the statements of a program and into errors, but no rule ever decides by a place.

To say so, places are taken off: two programs that are equal without their places are the same program
in another layout.

## Main definitions

* `Token.word` is a token without its place, and `unplaced` takes the places off a lexeme, a token, a
  program, an error.
* `Rule.Agree` says that two rules make the same of the same words, up to places.
* `Program.ofTokens_layout`: tokens with the same words are read as the same program, or refused with
  the same error.
-/

namespace ThreeAddress

/-! ## Without places -/

/-- The kind of a token and its text. -/
def Token.word (t : Token) : TokenKind × String :=
  (t.kind, t.text)

/-- The lexeme without its span. -/
def Lexeme.unplaced (l : Lexeme) : Lexeme :=
  ⟨l.text, ⟨0, 0⟩⟩

/-- The token without its span and its position. -/
def Token.unplaced (t : Token) : Token :=
  ⟨t.kind, t.lexeme.unplaced, ⟨0, 0⟩⟩

/-- The expression without the spans of its names. -/
def Expr.unplaced : Expr → Expr
  | .number value => .number value
  | .name lexeme => .name lexeme.unplaced
  | .binary op lhs rhs => .binary op lhs.unplaced rhs.unplaced

mutual

/-- The statement without its lines and the spans of its names. -/
def Stmt.unplaced : Stmt → Stmt
  | .declare name init _ => .declare name.unplaced init.unplaced 0
  | .assign name value _ => .assign name.unplaced value.unplaced 0
  | .ifThen condition body _ => .ifThen condition.unplaced body.unplaced 0
  | .ifElse condition body otherwise _ =>
    .ifElse condition.unplaced body.unplaced otherwise.unplaced 0
  | .loop condition body _ => .loop condition.unplaced body.unplaced 0
  | .block body => .block (Stmt.unplacedAll body)

/-- The statements without their lines and the spans of their names. -/
def Stmt.unplacedAll : List Stmt → List Stmt
  | [] => []
  | s :: rest => s.unplaced :: Stmt.unplacedAll rest

end

/-- The fault without its line. -/
def ParseFault.unplaced : ParseFault → ParseFault
  | expected wanted found _ => expected wanted found 0
  | integerOutOfRange literal _ => integerOutOfRange literal 0
  | nestingTooDeep _ => nestingTooDeep 0

/-- The error without its file and its snippet, where `kind` takes the place off a kind. -/
def Diagnostic.unplaced {κ : Type} (kind : κ → κ) (d : Diagnostic κ) : Diagnostic κ :=
  ⟨kind d.kind, none, none, d.contexts⟩

theorem Stmt.unplacedAll_eq_map (body : List Stmt) : Stmt.unplacedAll body = body.map Stmt.unplaced := by
  induction body with
  | nil => rfl
  | cons s rest ih => rw [Stmt.unplacedAll, ih, List.map_cons]

/-- Tokens with the same words are the same without their places. -/
theorem Token.map_unplaced {ts ts' : List Token} (words : ts.map Token.word = ts'.map Token.word) :
    ts.map Token.unplaced = ts'.map Token.unplaced := by
  have split : Token.unplaced = (fun word => ⟨word.1, ⟨word.2, ⟨0, 0⟩⟩, ⟨0, 0⟩⟩) ∘ Token.word := rfl
  rw [split, ← List.map_map, words, List.map_map]

/-! ## What a rule sees -/

section

variable {site site' : Site} {ts ts' : List Token}
  (same : ts.map Token.unplaced = ts'.map Token.unplaced)

include same

theorem kindOf_congr : kindOf ts = kindOf ts' := by
  cases ts <;> cases ts' <;> simp_all [Token.unplaced, kindOf]

theorem Site.lexemeOf_congr : (site.lexemeOf ts).unplaced = (site'.lexemeOf ts').unplaced := by
  cases ts <;> cases ts' <;> simp_all [Token.unplaced, Site.lexemeOf, Lexeme.unplaced]

theorem length_congr : ts.length = ts'.length := by
  simpa using congrArg List.length same

theorem tail_congr : ts.tail.map Token.unplaced = ts'.tail.map Token.unplaced := by
  rw [List.map_tail, same, List.map_tail]

end

/-- The reply without places, where `value` takes them off a value. -/
def Reply.unplaced {α : Type} (value : α → α) : Reply α → Reply α
  | .ok a rest => .ok (value a) (rest.map Token.unplaced)
  | .fail error rest raised =>
    .fail (error.unplaced ParseFault.unplaced) (rest.map Token.unplaced) raised

/-- The reply with other errors and levels, if it failed. -/
def Reply.mapFail {α : Type} (error : Diagnostic ParseFault → Diagnostic ParseFault)
    (levels : Nat → Nat) : Reply α → Reply α
  | .ok a rest => .ok a rest
  | .fail e rest raised => .fail (error e) rest (levels raised)

/-- What is done to failures keeps replies the same up to places, if it does not look at places. -/
theorem Reply.mapFail_congr {α : Type} {f : α → α} {reply reply' : Reply α}
    (error : Diagnostic ParseFault → Diagnostic ParseFault) (levels : Nat → Nat)
    (blind : ∀ e e', e.unplaced ParseFault.unplaced = e'.unplaced ParseFault.unplaced →
      (error e).unplaced ParseFault.unplaced = (error e').unplaced ParseFault.unplaced)
    (same : reply.unplaced f = reply'.unplaced f) :
    (reply.mapFail error levels).unplaced f = (reply'.mapFail error levels).unplaced f := by
  cases reply with
  | ok a rest =>
    cases reply' with
    | ok a' rest' => exact same
    | fail => cases same
  | fail e rest raised =>
    cases reply' with
    | ok => cases same
    | fail e' rest' raised' =>
      obtain ⟨errors, left, levels⟩ := Reply.fail.inj same
      simp only [mapFail, unplaced, blind e e' errors, left, levels]

namespace Rule

variable {α β : Type} {f : α → α} {g : β → β} {rule rule' : Rule α}

/-- The rules make the same of the same words, up to places, where `f` takes the places off their
values. -/
def Agree (f : α → α) (rule rule' : Rule α) : Prop :=
  ∀ site site' ts ts', ts.map Token.unplaced = ts'.map Token.unplaced →
    (rule site ts).unplaced f = (rule' site' ts').unplaced f

theorem agree_pure {a a' : α} (same : f a = f a') : Agree f (pure a) (pure a') := by
  intro site site' ts ts' words
  rw [pure_apply, pure_apply, Reply.unplaced, Reply.unplaced, same, words]

/-- What comes next agrees for values that are the same without their places. -/
theorem Agree.bind {next next' : α → Rule β} (first : Agree f rule rule')
    (others : ∀ a a', f a = f a' → Agree g (next a) (next' a')) :
    Agree g (rule >>= next) (rule' >>= next') := by
  intro site site' ts ts' words
  have replies := first site site' ts ts' words
  rw [bind_apply, bind_apply]
  generalize rule site ts = reply at replies ⊢
  generalize rule' site' ts' = reply' at replies ⊢
  cases reply with
  | ok a rest =>
    cases reply' with
    | ok a' rest' =>
      obtain ⟨value, left⟩ := Reply.ok.inj replies
      exact others a a' value _ _ _ _ left
    | fail => cases replies
  | fail error rest raised =>
    cases reply' with
    | ok => cases replies
    | fail error' rest' raised' =>
      obtain ⟨errors, left, levels⟩ := Reply.fail.inj replies
      simp only [Reply.unplaced, errors, left, levels]

/-- Values without places are the same themselves. -/
theorem Agree.bind_same {next next' : α → Rule β} (first : Agree id rule rule')
    (others : ∀ a, Agree g (next a) (next' a)) : Agree g (rule >>= next) (rule' >>= next') :=
  first.bind fun a a' (same : a = a') => same ▸ others a

theorem Agree.discard (h : Agree f rule rule') : Agree id (discard rule) (discard rule') :=
  h.bind fun _ _ _ => agree_pure rfl

/-! ## Building blocks -/

theorem agree_peek : Agree id peek peek := by
  intro site site' ts ts' words
  rw [peek, peek, Reply.unplaced, Reply.unplaced, kindOf_congr words, words]

theorem agree_line : Agree (fun _ => 0) line line := by
  intro site site' ts ts' words
  rw [line, line, Reply.unplaced, Reply.unplaced, words]

theorem agree_lexeme : Agree Lexeme.unplaced lexeme lexeme := by
  intro site site' ts ts' words
  rw [lexeme, lexeme, Reply.unplaced, Reply.unplaced, Site.lexemeOf_congr words, words]

theorem agree_advance : Agree id advance advance := by
  intro site site' ts ts' words
  rw [advance, advance, Reply.unplaced, Reply.unplaced, tail_congr words]

/-- Failures agree whatever their spans are. -/
theorem agree_failAt {span span' : Span} {fault fault' : ParseFault}
    (same : fault.unplaced = fault'.unplaced) : Agree f (failAt span fault) (failAt span' fault') := by
  intro site site' ts ts' words
  simp [failAt, Reply.unplaced, Diagnostic.unplaced, Diagnostic.locatedAt, Diagnostic.withSource,
    Diagnostic.ofKind, same, words]

theorem agree_reject (wanted : Wanted) : Agree f (reject wanted) (reject wanted) :=
  agree_lexeme.bind fun _ _ _ => agree_peek.bind_same fun _ => agree_line.bind fun _ _ _ =>
    agree_failAt rfl

theorem agree_tooDeep : Agree f tooDeep tooDeep :=
  agree_lexeme.bind fun _ _ _ => agree_line.bind fun _ _ _ => agree_failAt rfl

theorem agree_eat (kind : TokenKind) : Agree Lexeme.unplaced (eat kind) (eat kind) := by
  have expects : Agree id (expect kind) (expect kind) :=
    agree_peek.bind_same fun next => by
      by_cases here : next = kind
      · rw [if_pos here]
        exact agree_pure rfl
      · rw [if_neg here]
        exact agree_reject _
  exact expects.bind_same fun _ => agree_lexeme.bind fun _ _ same => agree_advance.bind_same fun _ =>
    agree_pure same

theorem Agree.within (context : String) (h : Agree f rule rule') :
    Agree f (within context rule) (within context rule') := by
  intro site site' ts ts' words
  refine Reply.mapFail_congr (Diagnostic.addContext · context) id (fun e e' same => ?_)
    (h site site' ts ts' words)
  obtain ⟨kinds, -, -, contexts⟩ := Diagnostic.mk.inj same
  simp only [Diagnostic.unplaced, Diagnostic.kind_addContext, Diagnostic.contexts_addContext, kinds,
    contexts]

theorem Agree.link (h : Agree f rule rule') : Agree f (link rule) (link rule') := by
  intro site site' ts ts' words
  exact Reply.mapFail_congr id (· + 1) (fun _ _ => id) (h site site' ts ts' words)

theorem Agree.contain (h : Agree f rule rule') : Agree f (contain rule) (contain rule') := by
  intro site site' ts ts' words
  exact Reply.mapFail_congr id (fun _ => 0) (fun _ _ => id) (h site site' ts ts' words)

/-- Repetition takes the same items. -/
theorem Agree.many (stop : TokenKind → Bool) (h : Agree f rule rule') :
    Agree (List.map f) (many stop rule) (many stop rule') := by
  intro site site' ts
  induction len : ts.length using Nat.strongRecOn generalizing ts with
  | ind n ih =>
    subst len
    intro ts' words
    have replies := h site site' ts ts' words
    rw [Rule.many, Rule.many, ← kindOf_congr words]
    split
    next => rw [Reply.unplaced, Reply.unplaced, words]
    next =>
      generalize rule site ts = reply at replies ⊢
      generalize rule' site' ts' = reply' at replies ⊢
      cases reply with
      | fail error rest raised =>
        cases reply' with
        | ok => cases replies
        | fail error' rest' raised' => simp_all [Reply.unplaced]
      | ok a rest =>
        cases reply' with
        | fail => cases replies
        | ok a' rest' =>
          obtain ⟨value, left⟩ := Reply.ok.inj replies
          simp only [← length_congr words, ← length_congr left]
          split
          next shrinks =>
            have others := ih _ shrinks rest rfl rest' left
            generalize Rule.many stop rule site rest = later at others ⊢
            generalize Rule.many stop rule' site' rest' = later' at others ⊢
            cases later <;> cases later' <;> simp_all [Reply.unplaced]
          next => simp [Reply.unplaced, value, left]

theorem agree_keyword (word : Keyword) : Agree id (keyword word) (keyword word) :=
  (agree_eat _).discard.within _

theorem agree_identifier : Agree Lexeme.unplaced identifier identifier :=
  (agree_eat _).within _

end Rule

open Rule

/-! ## Expressions -/

namespace Expr

variable {budget : Nat} {level : Level}

theorem agree_literal : Agree Expr.unplaced literal literal :=
  agree_lexeme.bind fun here here' same => by
    have text : here.text = here'.text := (Lexeme.mk.inj same).1
    simp only [text]
    cases Decimal.word? here'.text.toList with
    | some word => exact agree_advance.bind_same fun _ => agree_pure rfl
    | none => exact agree_line.bind fun _ _ _ => agree_failAt rfl

/-- What is no chain agrees with itself, if expressions with one level less do. -/
theorem agree_primary
    (less : ∀ b < budget, Agree Expr.unplaced (chain b .comparison) (chain b .comparison)) :
    Agree Expr.unplaced (primary budget) (primary budget) := by
  have closes (inner inner' : Expr) (same : inner.unplaced = inner'.unplaced) :
      Agree Expr.unplaced
        (do discard (within "as the end of the expression" (eat .closeParen)); return inner)
        (do discard (within "as the end of the expression" (eat .closeParen)); return inner') :=
    ((agree_eat _).within _).discard.bind_same fun _ => agree_pure same
  rw [primary]
  refine .within _ (agree_peek.bind_same fun kind => ?_)
  cases kind with
  | openParen =>
    refine agree_advance.bind_same fun _ => ?_
    cases budget with
    | zero => exact agree_tooDeep.bind closes
    | succ b => exact (less b b.lt_succ_self).contain.bind closes
  | number => exact agree_literal
  | identifier =>
    exact agree_lexeme.bind fun _ _ same => agree_advance.bind_same fun _ =>
      agree_pure (congrArg Expr.name same)
  | _ => exact agree_reject _

/-- The rest of a chain agrees, if it does with one level less. -/
theorem agree_links
    (less : ∀ b < budget, Agree Expr.unplaced (operand b level) (operand b level) ∧
      ∀ lhs lhs', lhs.unplaced = lhs'.unplaced →
        Agree Expr.unplaced (links b level lhs) (links b level lhs'))
    (lhs lhs' : Expr) (same : lhs.unplaced = lhs'.unplaced) :
    Agree Expr.unplaced (links budget level lhs) (links budget level lhs') := by
  rw [links, links]
  refine agree_peek.bind_same fun kind => ?_
  cases level.operator? kind with
  | none => exact agree_pure same
  | some op =>
    cases budget with
    | zero => exact agree_tooDeep
    | succ b =>
      obtain ⟨operand, links⟩ := less b b.lt_succ_self
      refine .link (agree_advance.bind_same fun _ => operand.bind fun rhs rhs' same' => ?_)
      exact links _ _ (by simp only [Expr.unplaced, same, same'])

/-- All rules for expressions agree with themselves, by induction on the budget. -/
theorem agree_all (budget : Nat) :
    (∀ level, Agree Expr.unplaced (operand budget level) (operand budget level)) ∧
      ∀ level lhs lhs', lhs.unplaced = lhs'.unplaced →
        Agree Expr.unplaced (links budget level lhs) (links budget level lhs') := by
  induction budget using Nat.strongRecOn with
  | ind budget ih =>
    have rest (level : Level) := agree_links fun b lt => ⟨(ih b lt).1 level, (ih b lt).2 level⟩
    have chain_of {b : Nat} {level : Level}
        (first : Agree Expr.unplaced (operand b level) (operand b level))
        (others : ∀ lhs lhs', lhs.unplaced = lhs'.unplaced →
          Agree Expr.unplaced (links b level lhs) (links b level lhs')) :
        Agree Expr.unplaced (chain b level) (chain b level) := by
      rw [chain]
      exact first.bind others
    have factor : Agree Expr.unplaced (operand budget .factor) (operand budget .factor) := by
      rw [operand]
      exact agree_primary fun b lt => chain_of ((ih b lt).1 _) ((ih b lt).2 _)
    have term : Agree Expr.unplaced (operand budget .term) (operand budget .term) := by
      rw [operand]
      exact chain_of factor (rest .factor)
    have comparison : Agree Expr.unplaced (operand budget .comparison) (operand budget .comparison) := by
      rw [operand]
      exact chain_of term (rest .term)
    exact ⟨fun level => by cases level <;> assumption, rest⟩

theorem agree_rule (budget : Nat) : Agree Expr.unplaced (Expr.rule budget) (Expr.rule budget) := by
  obtain ⟨operand, links⟩ := agree_all budget
  refine .within _ ?_
  rw [chain]
  exact (operand _).bind (links _)

end Expr

/-! ## Statements -/

namespace Stmt

variable {statement : Rule Stmt}

theorem agree_assignment (budget : Nat) :
    Agree (Prod.map Lexeme.unplaced Expr.unplaced) (assignment budget) (assignment budget) :=
  agree_identifier.bind fun _ _ name => (agree_eat _).discard.bind_same fun _ =>
    (Expr.agree_rule budget).bind fun _ _ value => (agree_eat _).discard.bind_same fun _ =>
      agree_pure (Prod.ext name value)

theorem agree_condition (budget : Nat) :
    Agree Expr.unplaced (condition budget) (condition budget) :=
  .within _ <| (agree_eat _).discard.bind_same fun _ => (Expr.agree_rule budget).bind fun _ _ same =>
    (agree_eat _).discard.bind_same fun _ => agree_pure same

theorem agree_block (inside : Agree Stmt.unplaced statement statement) :
    Agree (List.map Stmt.unplaced) (Block.rule statement) (Block.rule statement) :=
  .within _ <| (agree_eat _).discard.bind_same fun _ => (inside.many _).bind fun _ _ same =>
    (agree_eat _).discard.bind_same fun _ => agree_pure same

/-- The inside of a statement agrees with itself, if the statements in it do. -/
theorem agree_body (budget : Nat) (inside : Agree Stmt.unplaced statement statement) :
    Agree Stmt.unplaced (body budget statement) (body budget statement) := by
  refine agree_line.bind fun line line' _ => agree_peek.bind_same fun kind => ?_
  cases kind with
  | keyword word =>
    cases word with
    | kwVar =>
      refine (agree_keyword _).bind_same fun _ => (agree_assignment budget).bind fun parts parts' same => ?_
      obtain ⟨name, value⟩ := Prod.mk.inj same
      exact agree_pure (by simp only [Stmt.unplaced, name, value])
    | kwIf =>
      refine (agree_keyword _).bind_same fun _ => .within _ <| (agree_condition budget).bind
        fun _ _ test => inside.bind fun _ _ body => agree_peek.bind_same fun next => ?_
      by_cases turns : next = .keyword .kwElse
      · rw [if_pos turns, if_pos turns]
        exact (agree_keyword _).bind_same fun _ => inside.bind fun _ _ other =>
          agree_pure (by simp only [Stmt.unplaced, test, body, other])
      · rw [if_neg turns, if_neg turns]
        exact agree_pure (by simp only [Stmt.unplaced, test, body])
    | kwElse => exact agree_reject _
    | kwWhile =>
      exact (agree_keyword _).bind_same fun _ => .within _ <| (agree_condition budget).bind
        fun _ _ test => inside.bind fun _ _ body =>
          agree_pure (by simp only [Stmt.unplaced, test, body])
  | identifier =>
    refine (agree_assignment budget).bind fun parts parts' same => ?_
    obtain ⟨name, value⟩ := Prod.mk.inj same
    exact agree_pure (by simp only [Stmt.unplaced, name, value])
  | openBrace =>
    refine (agree_block inside).bind fun body body' same => ?_
    exact agree_pure (by simp only [Stmt.unplaced, Stmt.unplacedAll_eq_map, same])
  | _ => exact agree_reject _

theorem agree_rule (budget : Nat) : Agree Stmt.unplaced (Stmt.rule budget) (Stmt.rule budget) := by
  induction budget with
  | zero => exact agree_tooDeep.within _
  | succ budget ih => exact (agree_body budget ih).contain.within _

end Stmt

/-! ## Programs -/

/-- Tokens with the same words are read as the same program up to places, or refused with the same error
up to places. -/
theorem Program.ofTokens_layout (source other : Source) {tokens tokens' : List Token}
    (words : tokens.map Token.word = tokens'.map Token.word) :
    (∃ program program', ofTokens source tokens = .ok program ∧ ofTokens other tokens' = .ok program' ∧
        Stmt.unplacedAll program = Stmt.unplacedAll program') ∨
      ∃ error error', ofTokens source tokens = .error error ∧ ofTokens other tokens' = .error error' ∧
        error.unplaced ParseFault.unplaced = error'.unplaced ParseFault.unplaced := by
  have agrees : Agree (List.map Stmt.unplaced) (Program.rule maxNesting) (Program.rule maxNesting) :=
    (Stmt.agree_rule maxNesting).many _
  have replies := agrees (.ofTokens source tokens) (.ofTokens other tokens') _ _
    (Token.map_unplaced words)
  simp only [ofTokens, Stmt.unplacedAll_eq_map]
  generalize Program.rule maxNesting (.ofTokens source tokens) tokens = reply at replies ⊢
  generalize Program.rule maxNesting (.ofTokens other tokens') tokens' = reply' at replies ⊢
  cases reply with
  | ok program rest =>
    cases reply' with
    | ok program' rest' => exact .inl ⟨program, program', rfl, rfl, (Reply.ok.inj replies).1⟩
    | fail => cases replies
  | fail error rest raised =>
    cases reply' with
    | ok => cases replies
    | fail error' rest' raised' =>
      exact .inr ⟨error, error', rfl, rfl, (Reply.fail.inj replies).1⟩

end ThreeAddress
