import Mathlib.Order.Bounds.Defs
import ThreeAddress.Proofs.Program.Completeness
import ThreeAddress.Proofs.Program.Height
import ThreeAddress.Proofs.Token.Cursor

/-!
# The highest programs

Texts whose trees are as high as their nesting allows, so that the bounds on heights are sharp. A
tower is put in parentheses, and chains of all three levels are built on it, each with as many
operators as its level of nesting leaves room for.

## Main definitions

* `tower n` is the expression, and `towerText n` its text.
* `Cursor.Spells` says that an expression is spelled out in a text; `Cursor.spells_tower` says it
  of towers.
* `Program.heights m` are the heights of the programs that nest `m` levels deep at most, and
  `Program.isGreatest_heights` tells the greatest of them.
* `Program.height_exact` tells when the limit on the nesting bounds the height of a program.
-/

namespace ThreeAddress

/-! ## Towers -/

/-- A chain of `n` more operators on an expression, each with the operand one. -/
def Expr.extend (op : Operator) (e : Expr) : Nat → Expr
  | 0 => e
  | n + 1 => Expr.extend op (.binary op e (.number 1)) n

/-- The text of `n` more operators. -/
def extendText (op : Operator) : Nat → List Char
  | 0 => []
  | n + 1 => op.signs.1.char :: '1' :: extendText op n

/-- The highest expression that nests `n` levels deep. -/
def tower : Nat → Expr
  | 0 => .number 1
  | n + 1 => (((tower n).extend .mul (n + 1)).extend .add (n + 1)).extend .lt (n + 1)

/-- The text of the highest expression that nests `n` levels deep. -/
def towerText : Nat → List Char
  | 0 => ['1']
  | n + 1 =>
    '(' :: (towerText n ++ ')' :: (extendText .mul (n + 1) ++ (extendText .add (n + 1)
      ++ extendText .lt (n + 1))))

theorem Expr.height_extend (op : Operator) (e : Expr) (n : Nat) :
    (e.extend op n).height = e.height + n := by
  induction n generalizing e with
  | zero => rfl
  | succ n ih =>
    rw [Expr.extend, ih]
    simp only [Expr.height]
    omega

theorem height_tower (n : Nat) : (tower n).height = tallest (n + 1) := by
  induction n with
  | zero => rfl
  | succ n ih =>
    have step : tallest (n + 2) = tallest (n + 1) + 3 * (n + 1) := rfl
    rw [tower, Expr.height_extend, Expr.height_extend, Expr.height_extend, ih, step]
    omega

/-! ## Their tokens -/

/-- What is no chain is an operand at each level. -/
theorem Expr.Derives.operand {ts : List Token} {e : Expr} {n : Nat} (h : Expr.Derives .primary ts e n)
    (level : Level) : Expr.Derives (.operand level) ts e n := by
  cases level with
  | factor => exact .factor h
  | term => exact .term (.first (.factor h))
  | comparison => exact .comparison (.first (.term (.first (.factor h))))

namespace Cursor

variable {c : Cursor} {rest : List Char} {e : Expr} {op : Operator} {part : Expr.Part} {k n : Nat}

/-- From the cursor on, an expression that nests `n` levels deep is spelled out in the text, up to
`rest`. -/
def Spells (c : Cursor) (part : Expr.Part) (e : Expr) (n : Nat) (rest : List Char) : Prop :=
  ∃ ts c', c.Yields ts c' ∧ c'.rest = rest ∧ Expr.Derives part ts e n

/-- An expression that is spelled out as a part of the grammar is one as any part that this
derives. -/
theorem Spells.imp {part' : Expr.Part} (h : c.Spells part e n rest)
    (derives : ∀ ts, Expr.Derives part ts e n → Expr.Derives part' ts e n) :
    c.Spells part' e n rest := by
  obtain ⟨ts, c', yields, left, derived⟩ := h
  exact ⟨ts, c', yields, left, derives ts derived⟩

/-- A one is spelled out where no digit follows. -/
theorem spells_one (h : c.rest = '1' :: rest) (ends : rest.takeWhile Char.isDigit = []) :
    c.Spells .primary (.number 1) 0 rest := by
  have longest : munch? ('1' :: rest) = some (.number, ['1']) := by
    rw [← ends]
    rfl
  obtain ⟨t, c', yields, kind, literal, left⟩ := yields_char h rfl longest
  have value : (1 : Int64).toInt = Decimal.value ['1'] := by decide
  refine ⟨[t], c', yields, left, .number kind ?_⟩
  rw [literal, value]
  exact .unsigned (List.cons_ne_nil _ _) (List.forall_mem_singleton.mpr rfl)

/-- An operator and a one extend a chain. -/
theorem Spells.next (h : c.Spells (.chain op.level k) e n (op.signs.1.char :: '1' :: rest))
    (plain : op.signs.2 = false) (ends : rest.takeWhile Char.isDigit = []) :
    c.Spells (.chain op.level (k + 1)) (.binary op e (.number 1)) (max n (k + 1)) rest := by
  have solid : leadingTrivia (op.signs.1.char :: '1' :: rest) = [] := by
    cases op <;> rfl
  have longest : munch? (op.signs.1.char :: '1' :: rest) = some (op.token, [op.signs.1.char]) := by
    cases op <;> first | rfl | cases plain
  obtain ⟨ts, c₁, chained, left₁, before⟩ := h
  obtain ⟨t, c₂, signed, sign, -, left₂⟩ := yields_char left₁ solid longest
  obtain ⟨us, c₃, ended, left₃, one⟩ := spells_one left₂ ends
  exact ⟨ts ++ t :: us, c₃, chained.trans (signed.trans ended), left₃,
    .next before rfl sign (one.operand op.level)⟩

/-- A digit does not follow a chain that no digit follows. -/
theorem takeWhile_extendText (ends : rest.takeWhile Char.isDigit = []) (op : Operator) (j : Nat) :
    (extendText op j ++ rest).takeWhile Char.isDigit = [] := by
  cases j with
  | zero => exact ends
  | succ j => cases op <;> rfl

/-- More operators extend a chain, and it nests as deep as it has operators at least. -/
theorem Spells.extend (op : Operator) (plain : op.signs.2 = false)
    (ends : rest.takeWhile Char.isDigit = []) {j : Nat}
    (h : c.Spells (.chain op.level k) e n (extendText op j ++ rest)) :
    c.Spells (.chain op.level (k + j)) (e.extend op j) (max n (k + j)) rest := by
  induction j generalizing k n e with
  | zero =>
    obtain ⟨ts, c', yields, left, derived⟩ := h
    have few : k ≤ n := derived.operators_le
    rw [show max n (k + 0) = n by omega]
    exact ⟨ts, c', yields, left, derived⟩
  | succ j ih =>
    have longer := ih (Spells.next h plain (takeWhile_extendText ends op j))
    rw [show k + 1 + j = k + (j + 1) by omega] at longer
    rwa [show max (max n (k + 1)) (k + (j + 1)) = max n (k + (j + 1)) by omega] at longer

/-- Parentheses around what is spelled out behind the opening one. -/
theorem Spells.parens {inner : List Char} (h : c.rest = '(' :: inner)
    (inside : ∀ c' : Cursor, c'.rest = inner → c'.Spells .whole e n (')' :: rest)) :
    c.Spells .primary e (n + 1) rest := by
  obtain ⟨opening, c₁, opened, opens, -, left₁⟩ := yields_char h rfl rfl
  obtain ⟨ts, c₂, yields, left₂, derived⟩ := inside c₁ left₁
  obtain ⟨closing, c₃, closed, closes, -, left₃⟩ := yields_char left₂ rfl rfl
  exact ⟨opening :: (ts ++ [closing]), c₃, opened.trans (yields.trans closed), left₃,
    .parens opens derived closes⟩

/-- A tower is spelled out in its text. -/
theorem spells_tower (h : c.rest = towerText n ++ rest) (ends : rest.takeWhile Char.isDigit = []) :
    c.Spells .whole (tower n) n rest := by
  induction n generalizing c rest with
  | zero => exact (spells_one h ends).imp fun ts one => .whole (.first (one.operand .comparison))
  | succ n ih =>
    have ends₁ := takeWhile_extendText ends .lt (n + 1)
    have ends₂ := takeWhile_extendText ends₁ .add (n + 1)
    have nested : max (n + 1) (0 + (n + 1)) = n + 1 := by omega
    have shape : c.rest = '(' :: (towerText n ++ ')' :: (extendText .mul (n + 1)
        ++ (extendText .add (n + 1) ++ (extendText .lt (n + 1) ++ rest)))) := by
      simp [h, towerText]
    have inside := Spells.parens shape fun c' left => ih left rfl
    have products := Spells.extend .mul rfl ends₂ (inside.imp fun ts derived =>
      .first (.factor derived))
    rw [nested] at products
    have sums := Spells.extend .add rfl ends₁ (products.imp fun ts derived =>
      .first (.term derived))
    rw [nested] at sums
    have comparisons := Spells.extend .lt rfl ends (sums.imp fun ts derived =>
      .first (.comparison derived))
    rw [nested] at comparisons
    exact comparisons.imp fun ts derived => .whole derived

end Cursor

/-! ## Their programs -/

/-- A statement by itself is a program. -/
theorem Stmt.Derives.alone {ts : List Token} {s : Stmt} {n : Nat} (h : Stmt.Derives ts s n) :
    Stmt.DerivesAll ts [s] n := by
  have all := Stmt.DerivesAll.cons h .nil
  rwa [List.append_nil, Nat.max_zero] at all

/-- The source that assigns the expression of a text to a name. -/
def Source.assigning (text : List Char) : Source :=
  ⟨String.ofList ('a' :: '=' :: (text ++ [';'])), none⟩

/-- An expression that is spelled out in a text is assigned by a program. -/
theorem Source.exists_program_assigning {text : List Char} {e : Expr} {n : Nat}
    (equals : munch? ('=' :: (text ++ [';'])) = some (.operator .equals false, ['=']))
    (spells : ∀ c : Cursor, c.rest = text ++ [';'] → c.Spells .whole e n [';']) :
    ∃ (tokens : List Token) (program : Program), (Source.assigning text).tokenize = .ok tokens ∧
      Stmt.DerivesAll (tokens.takeWhile fun t => t.kind ≠ .eof) program (n + 1) ∧
        Program.height program = e.height + 1 := by
  have whole : (Cursor.ofSource (Source.assigning text)).rest = 'a' :: '=' :: (text ++ [';']) :=
    String.toList_ofList
  obtain ⟨name, c₁, named, names, -, left₁⟩ := Cursor.yields_char whole rfl rfl
  obtain ⟨sign, c₂, assigned, assigns, -, left₂⟩ := Cursor.yields_char left₁ rfl equals
  obtain ⟨ts, c₃, valued, left₃, value⟩ := spells c₂ left₂
  obtain ⟨semicolon, c₄, ended, ends, -, left₄⟩ := Cursor.yields_char left₃ rfl rfl
  have scanned := named.trans (assigned.trans (valued.trans ended))
  have derived := (Stmt.Derives.assign names assigns value ends).alone
  refine ⟨name :: sign :: (ts ++ [semicolon]) ++ [c₄.endToken],
    [.assign name.lexeme e name.line], Source.tokenize_of_yields scanned left₄, ?_, ?_⟩
  · rw [Program.takeWhile_of_kindOf derived.kind_ne_eof rfl]
    exact derived
  · simp only [Program.height, Stmt.heightAll, Stmt.height]
    omega

/-! ## The greatest heights -/

namespace Program

/-- The heights of the programs of sources whose tokens nest `m` levels deep at most. -/
def heights (m : Nat) : Set Nat :=
  {h | ∃ (source : Source) (tokens : List Token) (program : Program), source.tokenize = .ok tokens ∧
    (∃ n ≤ m, Stmt.DerivesAll (tokens.takeWhile fun t => t.kind ≠ .eof) program n) ∧
      Program.height program = h}

/-- The bound on the heights is the greatest of them. -/
theorem isGreatest_heights (m : Nat) : IsGreatest (heights m) (tallest m + min m 1) := by
  constructor
  · cases m with
    | zero =>
      have lexed := Source.tokenize_of_yields (Cursor.Yields.refl (.ofSource ⟨"", none⟩)) rfl
      exact ⟨⟨"", none⟩, _, [], lexed, ⟨0, Nat.le_refl 0, .nil⟩, rfl⟩
    | succ n =>
      have equals :
          munch? ('=' :: (towerText n ++ [';'])) = some (.operator .equals false, ['=']) := by
        cases n <;> rfl
      obtain ⟨tokens, program, lexed, derived, height⟩ :=
        Source.exists_program_assigning equals fun c left => Cursor.spells_tower left rfl
      refine ⟨_, tokens, program, lexed, ⟨n + 1, Nat.le_refl _, derived⟩, ?_⟩
      rw [height, height_tower]
      omega
  · rintro h ⟨source, tokens, program, -, ⟨n, le, derived⟩, rfl⟩
    have bound := derived.heightAll_le
    have mono := tallest_mono le
    simp only [Program.height]
    omega

/-- The highest program that is read from a source is far higher than the limit on the nesting. -/
theorem isGreatest_heights_maxNesting :
    IsGreatest {h | ∃ (source : Source) (tokens : List Token) (program : Program),
      source.tokenize = .ok tokens ∧ Program.ofTokens source tokens = .ok program ∧
        Program.height program = h} 59701 := by
  have greatest := isGreatest_heights maxNesting
  have highest := two_mul_tallest 199
  have bound : tallest maxNesting + min maxNesting 1 = 59701 := by
    simp only [maxNesting, Nat.reduceAdd, Nat.reduceMul] at highest ⊢
    omega
  rw [bound] at greatest
  simpa only [heights, ofTokens_eq_ok_iff] using greatest

/-- The limit on the nesting bounds the heights where programs nest at most 12 levels deep, and no
deeper. -/
theorem heights_le_maxNesting_iff (m : Nat) : (∀ h ∈ heights m, h ≤ maxNesting) ↔ m ≤ 12 := by
  obtain ⟨reached, bound⟩ := isGreatest_heights m
  constructor
  · intro limited
    have le := limited _ reached
    by_cases shallow : m ≤ 12
    · exact shallow
    · have mono : tallest 13 ≤ tallest m := tallest_mono (by omega)
      have high : tallest 13 = 234 := rfl
      simp only [maxNesting] at le
      omega
  · intro le h mem
    have mono : tallest m ≤ tallest 12 := tallest_mono le
    have low : tallest 12 = 198 := rfl
    have limited := bound mem
    simp only [maxNesting]
    omega

/-- When the limit on the nesting bounds the height. A program that is read is no higher than the
limit just if each of its expressions is no higher than the statements around it leave room for.
How deep the program nests tells only how high such a program can be, and that is within the limit
for all of them up to a nesting of 12 levels. -/
theorem height_exact {source : Source} {tokens : List Token} {program : Program}
    (parsed : Program.ofTokens source tokens = .ok program) :
    (Program.height program ≤ maxNesting ↔
      ∀ x ∈ Stmt.expressionsAll 0 program, x.1 + x.2.height ≤ maxNesting) ∧
    ∃ n ≤ maxNesting, Stmt.DerivesAll (tokens.takeWhile fun t => t.kind ≠ .eof) program n ∧
      Program.height program ≤ tallest n + min n 1 ∧
      IsGreatest (heights n) (tallest n + min n 1) ∧
      ((∀ h ∈ heights n, h ≤ maxNesting) ↔ n ≤ 12) := by
  obtain ⟨n, le, derived⟩ := ofTokens_eq_ok_iff.mp parsed
  have exact := derived.heightAll_le_iff 0 maxNesting (by omega)
  rw [Nat.zero_add] at exact
  exact ⟨exact, n, le, derived, derived.heightAll_le, isGreatest_heights n,
    heights_le_maxNesting_iff n⟩

/-- A program whose statements leave room for its expressions. -/
theorem height_exact_loop :
    let source : Source := ⟨"while (a < 3) { if (a == b) {} a = a + 1 * 2; }", none⟩
    ∃ tokens program, source.tokenize = .ok tokens ∧ Program.ofTokens source tokens = .ok program ∧
      Program.height program ≤ maxNesting := by
  intro source
  obtain ⟨tokens, program, lexed, parsed, fits⟩ : ∃ tokens program, source.tokenize = .ok tokens ∧
      Program.ofTokens source tokens = .ok program ∧
      decide (∀ x ∈ Stmt.expressionsAll 0 program, x.1 + x.2.height ≤ maxNesting) :=
    exists_of_read (by decide +kernel)
  exact ⟨tokens, program, lexed, parsed, (height_exact parsed).1.mpr (of_decide_eq_true fits)⟩

/-- A product of 151 factors and a sum of 151 terms: the product is the first of them, and the
tree is higher than the limit. -/
theorem height_productAndSum :
    let source := Source.assigning ('1' :: (extendText .mul 150 ++ extendText .add 150))
    ∃ (tokens : List Token) (program : Program), source.tokenize = .ok tokens ∧
      Program.ofTokens source tokens = .ok program ∧ maxNesting < Program.height program := by
  intro source
  have spells (c : Cursor)
      (left : c.rest = '1' :: (extendText .mul 150 ++ extendText .add 150) ++ [';']) :
      c.Spells .whole (((Expr.number 1).extend .mul 150).extend .add 150) 150 [';'] := by
    rw [List.cons_append, List.append_assoc] at left
    have one := Cursor.spells_one left rfl
    have product := Cursor.Spells.extend .mul rfl rfl (one.imp fun ts derived =>
      .first (.factor derived))
    have sum := Cursor.Spells.extend .add rfl rfl (product.imp fun ts derived =>
      .first (.term derived))
    exact sum.imp fun ts derived => .whole (.first (.comparison derived))
  obtain ⟨tokens, program, lexed, derived, height⟩ := Source.exists_program_assigning rfl spells
  refine ⟨tokens, program, lexed, ofTokens_eq_ok_iff.mpr ⟨151, by decide, derived⟩, ?_⟩
  rw [height, Expr.height_extend, Expr.height_extend]
  decide

end Program

end ThreeAddress
