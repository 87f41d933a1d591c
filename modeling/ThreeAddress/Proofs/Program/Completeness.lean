import ThreeAddress.Proofs.Program.Soundness
import ThreeAddress.Token.Cursor

/-!
# What is derived is read

The rules of the grammar read every derivation that nests within their budget, whatever comes
behind it, as long as that does not go on with the derivation: no operator that binds at least as
tightly behind an expression, and no `else` behind a statement that lacks one. Together with the
other direction this says that the tokens of a program are read as what they derive, and as
nothing else.

## Main definitions

* `EndsBefore` says that no tight operator comes behind an expression.
* `Expr.Derives.read_whole` and `Stmt.Derives.read`: derivations are read.
* `Program.ofTokens_eq_ok_iff`: a list of tokens is read as a program just if it derives it.
-/

namespace ThreeAddress

open Rule

/-! ## Expressions -/

/-- An operator at the beginning of the tokens binds so loosely that `rank` levels or more bind more
tightly. -/
def EndsBefore (rank : Nat) (ts : List Token) : Prop :=
  ∀ op : Operator, kindOf ts = op.token → rank ≤ op.level.rank

theorem EndsBefore.mono {rank less : Nat} {ts : List Token} (h : EndsBefore rank ts) (le : less ≤ rank) :
    EndsBefore less ts :=
  fun op here => Nat.le_trans le (h op here)

/-- Where no operator begins, every expression ends. -/
theorem endsBefore_of_operator? {kind : TokenKind} (none : kind.operator? = none) (rank : Nat)
    {t : Token} {later : List Token} (same : t.kind = kind) : EndsBefore rank (t :: later) := by
  rintro op here
  rw [kindOf_cons, same] at here
  subst here
  simp [Operator.token, TokenKind.operator?] at none

namespace Expr

variable {site : Site} {rest : List Token} {e : Expr}

/-- A chain ends where no operator of its level comes. -/
theorem links_of_endsBefore (level : Level) (ends : EndsBefore (level.rank + 1) rest) (budget : Nat) :
    links budget level e site rest = .ok e rest := by
  refine links_eq_ok.mpr (.inl ⟨?_, rfl, rfl⟩)
  cases found : level.operator? (kindOf rest) with
  | none => rfl
  | some op =>
    obtain ⟨rfl, sign⟩ := Level.operator?_eq_some_iff.mp found
    have loose := ends op sign.symm
    omega

/-- What it means that a part of the grammar is read. A chain is read up to its last operator;
what comes then is up to the rest of the chain, which has a budget of one less for each
operator. -/
def IsRead (ts : List Token) (e : Expr) (budget : Nat) : Part → Prop
  | .primary => ∀ site rest, primary budget site (ts ++ rest) = .ok e rest
  | .operand level => ∀ site rest, EndsBefore level.rank rest →
      operand budget level site (ts ++ rest) = .ok e rest
  | .chain level k => ∀ site rest x rest', EndsBefore level.rank rest →
      links (budget - k) level e site rest = .ok x rest' →
      chain budget level site (ts ++ rest) = .ok x rest'
  | .whole => ∀ site rest, EndsBefore 3 rest → chain budget .comparison site (ts ++ rest) = .ok e rest

/-- Derivations that nest within the budget are read. -/
theorem Derives.isRead {part : Part} {ts : List Token} {n : Nat} (h : Derives part ts e n)
    (budget : Nat) (le : n ≤ budget) : IsRead ts e budget part := by
  induction h generalizing budget with
  | @number t word kind numeral =>
    intro site rest
    exact primary_eq_ok.mpr (.inl ⟨t, word, rfl, kind, Decimal.word?_eq_some_iff.mpr numeral, rfl⟩)
  | @name t kind =>
    intro site rest
    exact primary_eq_ok.mpr (.inr (.inl ⟨t, rfl, kind, rfl⟩))
  | @parens opening closing ts e n opens inside closes ih =>
    intro site rest
    obtain ⟨b, rfl⟩ : ∃ b, budget = b + 1 := ⟨budget - 1, by omega⟩
    have within := ih b (by omega) site (closing :: rest) (endsBefore_of_operator? rfl 3 closes)
    exact primary_eq_ok.mpr (.inr (.inr ⟨b, opening, _, closing, rfl, by simp, opens, within, closes⟩))
  | factor inside ih =>
    intro site rest ends
    rw [operand]
    exact ih budget le site rest
  | term inside ih =>
    intro site rest ends
    rw [operand]
    exact ih budget le site rest _ _ (ends.mono (by decide)) (links_of_endsBefore .factor ends _)
  | comparison inside ih =>
    intro site rest ends
    rw [operand]
    exact ih budget le site rest _ _ (ends.mono (by decide)) (links_of_endsBefore .term ends _)
  | first inside ih =>
    intro site rest x rest' ends goesOn
    exact chain_eq_ok.mpr ⟨_, rest, ih budget le site rest ends, goesOn⟩
  | @next level k n m ts us lhs rhs t op before binds sign inside ihl ihr =>
    intro site rest x rest' ends goesOn
    have here : EndsBefore level.rank (t :: (us ++ rest)) := by
      intro other same
      rw [kindOf_cons, sign] at same
      have equal : other.level = level := by
        rw [← Operator.token_injective same, binds]
      exact Nat.le_of_eq (congrArg Level.rank equal.symm)
    have right := ihr (budget - (k + 1)) (by omega) site rest ends
    have one : budget - k = budget - (k + 1) + 1 := by omega
    have linked : links (budget - k) level lhs site (t :: (us ++ rest)) = .ok x rest' :=
      links_eq_ok.mpr (.inr ⟨budget - (k + 1), op, t, us ++ rest, rhs, rest, one, rfl, binds, sign,
        right, goesOn⟩)
    have all := ihl budget (by omega) site _ x rest' here linked
    simpa using all
  | whole inside ih =>
    intro site rest ends
    exact ih budget le site rest _ _ (ends.mono (by decide)) (links_of_endsBefore .comparison ends _)

/-- A whole expression is read up to a token that is no operator. -/
theorem Derives.read_whole {ts : List Token} {n : Nat} (h : Derives .whole ts e n) (budget : Nat)
    (le : n ≤ budget) (site : Site) {kind : TokenKind} (none : kind.operator? = none) {t : Token}
    (same : t.kind = kind) (rest : List Token) :
    Expr.rule budget site (ts ++ t :: rest) = .ok e (t :: rest) :=
  within_eq_ok.mpr (h.isRead budget le site (t :: rest) (endsBefore_of_operator? none 3 same))

end Expr

/-! ## Statements -/

namespace Stmt

/-- The first token of a statement neither ends a block nor the input, and is no `else`. -/
theorem Derives.kindOf_append {ts : List Token} {s : Stmt} {n : Nat} (h : Derives ts s n)
    (rest : List Token) :
    kindOf (ts ++ rest) ≠ .closeBrace ∧ kindOf (ts ++ rest) ≠ .eof ∧
      kindOf (ts ++ rest) ≠ .keyword .kwElse := by
  cases h with
  | declare kind | assign kind | ifThen kind | ifElse kind | loop kind | block kind => simp [kind]

theorem DerivesAll.kindOf_append {ts : List Token} {body : List Stmt} {n : Nat}
    (h : DerivesAll ts body n) {rest : List Token} (lone : kindOf rest ≠ .keyword .kwElse) :
    kindOf (ts ++ rest) ≠ .keyword .kwElse := by
  cases h with
  | nil => exact lone
  | cons first others =>
    rw [List.append_assoc]
    exact (first.kindOf_append _).2.2

theorem rule_succ_eq_ok {budget : Nat} {site : Site} {ts rest : List Token} {s : Stmt} :
    Stmt.rule (budget + 1) site ts = .ok s rest ↔
      body budget (Stmt.rule budget) site ts = .ok s rest := by
  rw [Stmt.rule, within_eq_ok, contain_eq_ok]

mutual

/-- Statements that nest within the budget are read. -/
theorem Derives.read {ts : List Token} {s : Stmt} {n : Nat} (h : Derives ts s n) (budget : Nat)
    (le : n ≤ budget) (site : Site) (rest : List Token)
    (lone : s.endsOpen → kindOf rest ≠ .keyword .kwElse) :
    Stmt.rule budget site (ts ++ rest) = .ok s rest := by
  obtain ⟨b, rfl⟩ : ∃ b, budget = b + 1 := ⟨budget - 1, by cases h <;> omega⟩
  rw [rule_succ_eq_ok]
  cases h with
  | declare declares named assigns value ends =>
    have init := value.read_whole b (by omega) site rfl ends rest
    rw [List.cons_append, body_of_var declares]
    refine ⟨_, _, assignment_eq_ok.mpr ⟨_, _, _, _, ?_, named, rfl, assigns, init, ends⟩, rfl⟩
    simp
  | assign named assigns value ends =>
    have value := value.read_whole b (by omega) site rfl ends rest
    rw [List.cons_append, body_of_identifier named]
    refine ⟨_, _, assignment_eq_ok.mpr ⟨_, _, _, _, ?_, named, rfl, assigns, value, ends⟩, rfl⟩
    simp
  | @ifThen word opening closing ts us c nested n m asks opens tests closes inside =>
    have test := tests.read_whole b (by omega) site rfl closes (us ++ rest)
    have nestedRead := inside.read b (by omega) site rest fun _ => lone rfl
    rw [List.cons_append, body_of_if asks]
    refine ⟨c, us ++ rest, nested, rest, condition_eq_ok.mpr
      ⟨opening, _, closing, ?_, opens, test, closes⟩, nestedRead, .inl ⟨lone rfl, rfl, rfl⟩⟩
    simp
  | @ifElse word opening closing other ts us vs c nested otherwise n m l asks opens tests closes inside
      nearest turns elsewhere =>
    have test := tests.read_whole b (by omega) site rfl closes (us ++ other :: (vs ++ rest))
    have nestedRead := inside.read b (by omega) site (other :: (vs ++ rest)) (by simp [nearest])
    have otherRead := elsewhere.read b (by omega) site rest lone
    rw [List.cons_append, body_of_if asks]
    refine ⟨c, us ++ other :: (vs ++ rest), nested, other :: (vs ++ rest), condition_eq_ok.mpr
      ⟨opening, _, closing, ?_, opens, test, closes⟩, nestedRead,
      .inr ⟨other, vs ++ rest, otherwise, rfl, turns, otherRead, rfl⟩⟩
    simp
  | @loop word opening closing ts us c nested n m repeats opens tests closes inside =>
    have test := tests.read_whole b (by omega) site rfl closes (us ++ rest)
    have nestedRead := inside.read b (by omega) site rest lone
    rw [List.cons_append, body_of_while repeats]
    refine ⟨c, us ++ rest, nested, condition_eq_ok.mpr ⟨opening, _, closing, ?_, opens, test, closes⟩,
      nestedRead, rfl⟩
    simp
  | @block opening closing ts nested n opens inside closes =>
    have only : ∀ kind, (decide (kind = .closeBrace) || decide (kind = .eof)) = true →
        kind = TokenKind.closeBrace ∨ kind = .eof := by
      simp
    have nestedRead := inside.read b (by omega) only site (closing :: rest) (by simp [closes])
    rw [List.cons_append, body_of_openBrace opens]
    refine ⟨nested, block_eq_ok.mpr ⟨opening, _, closing, ?_, opens, nestedRead, closes⟩, rfl⟩
    simp

/-- Statements one after another are read, up to the end of a block or of the input. -/
theorem DerivesAll.read {ts : List Token} {body : List Stmt} {n : Nat} (h : DerivesAll ts body n)
    (budget : Nat) (le : n ≤ budget) {stop : TokenKind → Bool}
    (only : ∀ kind, stop kind → kind = .closeBrace ∨ kind = .eof) (site : Site) (rest : List Token)
    (stops : stop (kindOf rest)) : many stop (Stmt.rule budget) site (ts ++ rest) = .ok body rest := by
  cases h with
  | nil => exact many_eq_ok.mpr (.inl ⟨stops, rfl, rfl⟩)
  | @cons ts us s others n m first later =>
    have goes : ¬stop (kindOf (ts ++ (us ++ rest))) := by
      intro stopped
      rcases only _ stopped with close | eof
      · exact (first.kindOf_append _).1 close
      · exact (first.kindOf_append _).2.1 eof
    have lone : kindOf rest ≠ .keyword .kwElse := by
      intro turns
      rw [turns] at stops
      cases only _ stops with
      | inl h => cases h
      | inr h => cases h
    have firstRead := first.read budget (by omega) site (us ++ rest) fun _ => later.kindOf_append lone
    have laterRead := later.read budget (by omega) only site rest stops
    have taken : 0 < ts.length := List.length_pos_iff.mpr first.ne_nil
    rw [List.append_assoc]
    refine many_eq_ok.mpr (.inr ⟨s, us ++ rest, goes, firstRead, .inl ⟨?_, others, laterRead, rfl⟩⟩)
    simp only [List.length_append]
    omega

end

end Stmt

/-! ## Programs -/

namespace Program

variable {ts : List Token} {program program' : Program} {n n' : Nat}

/-- A program that nests within the budget is read, up to the end of the input. -/
theorem read_of_derives (h : Stmt.DerivesAll ts program n) {budget : Nat} (le : n ≤ budget) (site : Site)
    {rest : List Token} (ends : kindOf rest = .eof) :
    Program.rule budget site (ts ++ rest) = .ok program rest :=
  h.read budget le (by simp) site rest (by simp [ends])

/-- Tokens derive one program at most. -/
theorem derives_unique (h : Stmt.DerivesAll ts program n) (h' : Stmt.DerivesAll ts program' n') :
    program = program' := by
  let site : Site := ⟨⟨"", none⟩, 1⟩
  have read : Program.rule (max n n') site (ts ++ []) = .ok program [] :=
    read_of_derives h (Nat.le_max_left n n') site rfl
  have read' : Program.rule (max n n') site (ts ++ []) = .ok program' [] :=
    read_of_derives h' (Nat.le_max_right n n') site rfl
  rw [read] at read'
  cases read'
  rfl

/-- Where no token of the input is left before its end, the end comes next. -/
theorem kindOf_dropWhile (tokens : List Token) :
    kindOf (tokens.dropWhile fun t => t.kind ≠ .eof) = .eof := by
  have head := List.head?_dropWhile_not (fun t : Token => decide (t.kind ≠ .eof)) tokens
  cases left : tokens.dropWhile fun t => t.kind ≠ .eof with
  | nil => rfl
  | cons t later =>
    rw [left] at head
    simpa using head

/-- The tokens before the end of the input, where that end is known. -/
theorem takeWhile_of_kindOf {used rest : List Token} (inside : ∀ t ∈ used, t.kind ≠ .eof)
    (ends : kindOf rest = .eof) : (used ++ rest).takeWhile (fun t => t.kind ≠ .eof) = used := by
  rw [List.takeWhile_append_of_pos (by simpa using inside)]
  cases rest with
  | nil => simp
  | cons t later => simp [show t.kind = .eof from ends]

/-- A list of tokens is read as a program just if its tokens before the end of the input derive
that, and nest no deeper than is allowed. -/
theorem ofTokens_eq_ok_iff {source : Source} {tokens : List Token} :
    Program.ofTokens source tokens = .ok program ↔
      ∃ n ≤ maxNesting, Stmt.DerivesAll (tokens.takeWhile fun t => t.kind ≠ .eof) program n := by
  constructor
  · intro h
    simp only [Program.ofTokens] at h
    split at h
    next other rest read =>
      cases h
      obtain ⟨used, n, rfl, derived, le, ends⟩ := Program.reads_rule read
      rw [takeWhile_of_kindOf derived.kind_ne_eof ends]
      exact ⟨n, le, derived⟩
    next => cases h
  · rintro ⟨n, le, derived⟩
    have read := read_of_derives derived le (.ofTokens source tokens) (kindOf_dropWhile tokens)
    rw [List.takeWhile_append_dropWhile] at read
    simp only [Program.ofTokens, read]

/-- A program that is read from a text, by evaluation. -/
theorem exists_of_read {source : Source} {p : Program → Bool}
    (h : (match source.tokenize with
      | .ok tokens => match Program.ofTokens source tokens with
        | .ok program => p program
        | .error _ => false
      | .error _ => false) = true) :
    ∃ tokens program, source.tokenize = .ok tokens ∧ Program.ofTokens source tokens = .ok program ∧
      p program = true := by
  split at h
  next tokens lexed =>
    split at h
    next program parsed => exact ⟨tokens, program, lexed, parsed, h⟩
    next => cases h
  next => cases h

/-- The grammar is read exactly. Whatever the tokens are, a program is read from them just if
those before the end of the input derive it and nest no deeper than is allowed, and they derive no
other program. -/
theorem ofTokens_exact (source : Source) (tokens : List Token) :
    (∀ program, Program.ofTokens source tokens = .ok program ↔
        ∃ n ≤ maxNesting, Stmt.DerivesAll (tokens.takeWhile fun t => t.kind ≠ .eof) program n) ∧
      ∀ program program' n n',
        Stmt.DerivesAll (tokens.takeWhile fun t => t.kind ≠ .eof) program n →
        Stmt.DerivesAll (tokens.takeWhile fun t => t.kind ≠ .eof) program' n' → program = program' :=
  ⟨fun _ => ofTokens_eq_ok_iff, fun _ _ _ _ => derives_unique⟩

/-- The program that some tokens derive, with operators of all levels and an `else` for the nearer
`if`. -/
theorem ofTokens_exact_nearest :
    let source : Source := ⟨"if (a) if (b < 1 + 2 * 3) a = 007; else {} var c = (1 + 2) * 3;", none⟩
    ∃ tokens program n, source.tokenize = .ok tokens ∧ Program.ofTokens source tokens = .ok program ∧
      Stmt.DerivesAll (tokens.takeWhile fun t => t.kind ≠ .eof) program n ∧
      ∀ program' n', Stmt.DerivesAll (tokens.takeWhile fun t => t.kind ≠ .eof) program' n' →
        program' = program := by
  intro source
  obtain ⟨tokens, program, lexed, parsed, -⟩ : ∃ tokens program, source.tokenize = .ok tokens ∧
      Program.ofTokens source tokens = .ok program ∧ true :=
    exists_of_read (by decide +kernel)
  obtain ⟨exact, unique⟩ := ofTokens_exact source tokens
  obtain ⟨n, -, derived⟩ := (exact program).mp parsed
  exact ⟨tokens, program, n, lexed, parsed, derived, fun program' n' derived' =>
    unique program' program n' n derived' derived⟩

end Program

end ThreeAddress
