import ThreeAddress.Program.Grammar
import ThreeAddress.Proofs.Program.Rule

/-!
# Grammar rules that succeed

What it takes for the rules of the grammar to succeed, one equivalence for each rule.
-/

namespace ThreeAddress

open Rule

theorem Operator.token_injective {op op' : Operator} (h : op.token = op'.token) : op = op' := by
  cases op <;> cases op' <;> first | rfl | simp [token, signs] at h

theorem Operator.token_ne_eof (op : Operator) : op.token ≠ .eof := by
  simp [token]

/-- A kind of token stands for an operator of a level just if it is the token of that operator. -/
theorem Level.operator?_eq_some_iff {level : Level} {kind : TokenKind} {op : Operator} :
    level.operator? kind = some op ↔ op.level = level ∧ op.token = kind := by
  constructor
  · intro found
    simpa using List.find?_some found
  · rintro ⟨rfl, rfl⟩
    have member : op ∈ Operator.all := by cases op <;> decide
    cases found : op.level.operator? op.token with
    | none =>
      have absent := List.find?_eq_none.mp found op member
      simp at absent
    | some other =>
      have same := List.find?_some found
      simp only [Bool.and_eq_true, decide_eq_true_eq] at same
      rw [Operator.token_injective same.2]

namespace Expr

variable {budget : Nat} {level : Level} {site : Site} {ts rest : List Token} {e lhs : Expr}

theorem chain_eq_ok :
    chain budget level site ts = .ok e rest ↔
      ∃ first middle, operand budget level site ts = .ok first middle ∧
        links budget level first site middle = .ok e rest := by
  rw [chain, bind_eq_ok]

theorem links_eq_ok :
    links budget level lhs site ts = .ok e rest ↔
      (level.operator? (kindOf ts) = none ∧ lhs = e ∧ ts = rest) ∨
        ∃ b op t later rhs middle, budget = b + 1 ∧ ts = t :: later ∧ op.level = level ∧
          t.kind = op.token ∧ operand b level site later = .ok rhs middle ∧
          links b level (.binary op lhs rhs) site middle = .ok e rest := by
  rw [links, peek_bind]
  cases found : level.operator? (kindOf ts) with
  | none =>
    have absent : ∀ (op : Operator) t later, ts = t :: later → op.level = level →
        t.kind ≠ op.token := by
      rintro op t later rfl binds sign
      rw [kindOf_cons, Level.operator?_eq_some_iff.mpr ⟨binds, sign.symm⟩] at found
      cases found
    simp only [pure_eq_ok, true_and]
    refine ⟨.inl, ?_⟩
    rintro (done | ⟨b, op, t, later, rhs, middle, -, here, binds, sign, -⟩)
    · exact done
    · exact absurd sign (absent op t later here binds)
  | some op =>
    obtain ⟨rfl, sign⟩ := Level.operator?_eq_some_iff.mp found
    obtain ⟨t, later, rfl, same⟩ := exists_cons_of_kindOf sign.symm (Operator.token_ne_eof op)
    cases budget with
    | zero => simp [tooDeep_ne_ok]
    | succ b =>
      simp only [link_eq_ok, advance_bind, bind_eq_ok, List.tail_cons]
      constructor
      · rintro ⟨rhs, middle, hrhs, hlinks⟩
        exact .inr ⟨b, op, t, later, rhs, middle, rfl, rfl, rfl, same, hrhs, hlinks⟩
      · rintro (⟨absent, -⟩ | ⟨_, other, _, _, rhs, middle, ⟨⟩, ⟨⟩, -, sign', hrhs, hlinks⟩)
        · cases absent
        · rw [same] at sign'
          cases Operator.token_injective sign'
          exact ⟨rhs, middle, hrhs, hlinks⟩

theorem primary_eq_ok :
    primary budget site ts = .ok e rest ↔
      (∃ t word, ts = t :: rest ∧ t.kind = .number ∧ Decimal.word? t.text.toList = some word ∧
        .number word = e) ∨
      (∃ t, ts = t :: rest ∧ t.kind = .identifier ∧ .name t.lexeme = e) ∨
      ∃ b opening later closing, budget = b + 1 ∧ ts = opening :: later ∧ opening.kind = .openParen ∧
        chain b .comparison site later = .ok e (closing :: rest) ∧ closing.kind = .closeParen := by
  rw [primary, within_eq_ok, peek_bind]
  cases ts with
  | nil => simp [kindOf, reject_ne_ok]
  | cons t later =>
    rw [kindOf_cons]
    cases kind : t.kind with
    | openParen =>
      cases budget with
      | zero => simp [kind, bind_eq_ok, tooDeep_ne_ok]
      | succ b =>
        simp only [advance_bind, bind_eq_ok, contain_eq_ok, discard_within_eq_ok,
          discard_eat_eq_ok (by decide : TokenKind.closeParen ≠ .eof), pure_eq_ok, List.tail_cons]
        constructor
        · rintro ⟨_, _, inside, _, _, ⟨closing, rfl, closes⟩, rfl, rfl⟩
          exact .inr (.inr ⟨b, t, later, closing, rfl, rfl, kind, inside, closes⟩)
        · rintro (⟨_, _, ⟨⟩, wrong, -⟩ | ⟨_, ⟨⟩, wrong, -⟩ | ⟨_, _, _, closing, ⟨⟩, ⟨⟩, -, inside, closes⟩)
          · simp [kind] at wrong
          · simp [kind] at wrong
          · exact ⟨e, closing :: rest, inside, (), rest, ⟨closing, rfl, closes⟩, rfl, rfl⟩
    | number =>
      simp only [literal, Token.text, lexeme_bind, lexemeOf_cons]
      cases read : Decimal.word? t.lexeme.text.toList with
      | none => simp [kind, read, failAt_ne_ok, and_assoc]
      | some word => simp [kind, read, pure_eq_ok, and_comm, and_assoc]
    | identifier => simp [kind, pure_eq_ok, and_comm, and_assoc]
    | _ => simp [kind, reject_ne_ok]

end Expr

/-! ## Statements -/

namespace Stmt

variable {budget : Nat} {site : Site} {ts later rest : List Token} {t : Token} {s : Stmt}
  {statement : Rule Stmt}

theorem assignment_eq_ok {name : Lexeme} {value : Expr} :
    assignment budget site ts = .ok (name, value) rest ↔
      ∃ x equals later semicolon, ts = x :: equals :: later ∧ x.kind = .identifier ∧ x.lexeme = name ∧
        equals.kind = .operator .equals false ∧
        Expr.rule budget site later = .ok value (semicolon :: rest) ∧ semicolon.kind = .semicolon := by
  simp only [assignment, bind_eq_ok, identifier_eq_ok, pure_eq_ok, Prod.mk.injEq,
    discard_eat_eq_ok (by decide : TokenKind.operator .equals false ≠ .eof),
    discard_eat_eq_ok (by decide : TokenKind.semicolon ≠ .eof)]
  constructor
  · rintro ⟨_, _, ⟨x, rfl, named, rfl⟩, _, _, ⟨equals, rfl, assigns⟩, _, _, read, _, _,
      ⟨semicolon, rfl, ends⟩, ⟨rfl, rfl⟩, rfl⟩
    exact ⟨x, equals, _, semicolon, rfl, named, rfl, assigns, read, ends⟩
  · rintro ⟨x, equals, later, semicolon, rfl, named, rfl, assigns, read, ends⟩
    exact ⟨_, _, ⟨x, rfl, named, rfl⟩, (), _, ⟨equals, rfl, assigns⟩, _, _, read, (), _,
      ⟨semicolon, rfl, ends⟩, ⟨rfl, rfl⟩, rfl⟩

theorem condition_eq_ok {c : Expr} :
    condition budget site ts = .ok c rest ↔
      ∃ opening later closing, ts = opening :: later ∧ opening.kind = .openParen ∧
        Expr.rule budget site later = .ok c (closing :: rest) ∧ closing.kind = .closeParen := by
  simp only [condition, within_eq_ok, bind_eq_ok, pure_eq_ok,
    discard_eat_eq_ok (by decide : TokenKind.openParen ≠ .eof),
    discard_eat_eq_ok (by decide : TokenKind.closeParen ≠ .eof)]
  constructor
  · rintro ⟨_, _, ⟨opening, rfl, opens⟩, _, _, read, _, _, ⟨closing, rfl, closes⟩, rfl, rfl⟩
    exact ⟨opening, _, closing, rfl, opens, read, closes⟩
  · rintro ⟨opening, later, closing, rfl, opens, read, closes⟩
    exact ⟨(), _, ⟨opening, rfl, opens⟩, _, _, read, (), _, ⟨closing, rfl, closes⟩, rfl, rfl⟩

theorem block_eq_ok {body : List Stmt} :
    Block.rule statement site ts = .ok body rest ↔
      ∃ opening later closing, ts = opening :: later ∧ opening.kind = .openBrace ∧
        many (fun kind => kind = .closeBrace || kind = .eof) statement site later =
          .ok body (closing :: rest) ∧ closing.kind = .closeBrace := by
  have present : TokenKind.closeBrace ≠ .eof := by decide
  rw [Block.rule, within_eq_ok, bind_eq_ok]
  simp only [discard_eat_eq_ok (by decide : TokenKind.openBrace ≠ .eof)]
  constructor
  · rintro ⟨_, _, ⟨opening, rfl, opens⟩, inside⟩
    obtain ⟨_, _, read, others⟩ := bind_eq_ok.mp inside
    obtain ⟨_, _, close, done⟩ := bind_eq_ok.mp others
    obtain ⟨closing, rfl, closes⟩ := (discard_eat_eq_ok present).mp close
    obtain ⟨rfl, rfl⟩ := pure_eq_ok.mp done
    exact ⟨opening, _, closing, rfl, opens, read, closes⟩
  · rintro ⟨opening, later, closing, rfl, opens, read, closes⟩
    have close : (discard (eat .closeBrace) : Rule Unit) site (closing :: rest) = .ok () rest :=
      (discard_eat_eq_ok present).mpr ⟨closing, rfl, closes⟩
    exact ⟨(), _, ⟨opening, rfl, opens⟩, bind_eq_ok.mpr ⟨_, _, read, bind_eq_ok.mpr ⟨_, _, close, rfl⟩⟩⟩

/-! ### The inside of a statement, by its first token -/

theorem body_of_var (kind : t.kind = .keyword .kwVar) :
    body budget statement site (t :: later) = .ok s rest ↔
      ∃ name init, assignment budget site later = .ok (name, init) rest ∧
        .declare name init t.line = s := by
  simp only [body, line_bind, peek_bind, kindOf_cons, kind, bind_eq_ok, keyword_eq_ok, pure_eq_ok]
  constructor
  · rintro ⟨_, _, ⟨_, ⟨⟩, -⟩, ⟨name, init⟩, _, read, rfl, rfl⟩
    exact ⟨name, init, read, rfl⟩
  · rintro ⟨name, init, read, rfl⟩
    exact ⟨(), later, ⟨t, rfl, kind⟩, (name, init), rest, read, rfl, rfl⟩

theorem body_of_identifier (kind : t.kind = .identifier) :
    body budget statement site (t :: later) = .ok s rest ↔
      ∃ name value, assignment budget site (t :: later) = .ok (name, value) rest ∧
        .assign name value t.line = s := by
  simp only [body, line_bind, peek_bind, kindOf_cons, kind, bind_eq_ok, pure_eq_ok]
  constructor
  · rintro ⟨⟨name, value⟩, _, read, rfl, rfl⟩
    exact ⟨name, value, read, rfl⟩
  · rintro ⟨name, value, read, rfl⟩
    exact ⟨(name, value), rest, read, rfl, rfl⟩

theorem body_of_if (kind : t.kind = .keyword .kwIf) :
    body budget statement site (t :: later) = .ok s rest ↔
      ∃ c middle inside after, condition budget site later = .ok c middle ∧
        statement site middle = .ok inside after ∧
        ((kindOf after ≠ .keyword .kwElse ∧ after = rest ∧ .ifThen c inside t.line = s) ∨
          ∃ other behind otherwise, after = other :: behind ∧ other.kind = .keyword .kwElse ∧
            statement site behind = .ok otherwise rest ∧ .ifElse c inside otherwise t.line = s) := by
  simp only [body, line_bind, peek_bind, kindOf_cons, kind, bind_eq_ok, keyword_eq_ok, within_eq_ok]
  constructor
  · rintro ⟨_, _, ⟨_, ⟨⟩, -⟩, c, middle, tests, inside, after, read, goesOn⟩
    refine ⟨c, middle, inside, after, tests, read, ?_⟩
    split at goesOn
    next =>
      obtain ⟨_, _, turn, elsewhere⟩ := bind_eq_ok.mp goesOn
      obtain ⟨other, rfl, turns⟩ := keyword_eq_ok.mp turn
      obtain ⟨otherwise, _, read', done⟩ := bind_eq_ok.mp elsewhere
      obtain ⟨rfl, rfl⟩ := pure_eq_ok.mp done
      exact .inr ⟨other, _, otherwise, rfl, turns, read', rfl⟩
    next lacks =>
      obtain ⟨rfl, rfl⟩ := pure_eq_ok.mp goesOn
      exact .inl ⟨lacks, rfl, rfl⟩
  · rintro ⟨c, middle, inside, after, tests, read, goesOn⟩
    refine ⟨(), later, ⟨t, rfl, kind⟩, c, middle, tests, inside, after, read, ?_⟩
    rcases goesOn with ⟨lacks, rfl, rfl⟩ | ⟨other, behind, otherwise, rfl, turns, read', rfl⟩
    · rw [if_neg lacks]
      rfl
    · rw [kindOf_cons, if_pos turns]
      exact bind_eq_ok.mpr ⟨(), behind, keyword_eq_ok.mpr ⟨other, rfl, turns⟩,
        bind_eq_ok.mpr ⟨otherwise, rest, read', rfl⟩⟩

theorem body_of_while (kind : t.kind = .keyword .kwWhile) :
    body budget statement site (t :: later) = .ok s rest ↔
      ∃ c middle inside, condition budget site later = .ok c middle ∧
        statement site middle = .ok inside rest ∧ .loop c inside t.line = s := by
  simp only [body, line_bind, peek_bind, kindOf_cons, kind, bind_eq_ok, keyword_eq_ok, within_eq_ok,
    pure_eq_ok]
  constructor
  · rintro ⟨_, _, ⟨_, ⟨⟩, -⟩, c, middle, tests, inside, _, read, rfl, rfl⟩
    exact ⟨c, middle, inside, tests, read, rfl⟩
  · rintro ⟨c, middle, inside, tests, read, rfl⟩
    exact ⟨(), later, ⟨t, rfl, kind⟩, c, middle, tests, inside, rest, read, rfl, rfl⟩

theorem body_of_openBrace (kind : t.kind = .openBrace) :
    body budget statement site (t :: later) = .ok s rest ↔
      ∃ inside, Block.rule statement site (t :: later) = .ok inside rest ∧ .block inside = s := by
  simp only [body, line_bind, peek_bind, kindOf_cons, kind, bind_eq_ok, pure_eq_ok]
  constructor
  · rintro ⟨inside, _, read, rfl, rfl⟩
    exact ⟨inside, read, rfl⟩
  · rintro ⟨inside, read, rfl⟩
    exact ⟨inside, rest, read, rfl, rfl⟩

end Stmt

end ThreeAddress
