import ThreeAddress.Proofs.Program.Layout
import ThreeAddress.Proofs.Program.Nesting
import ThreeAddress.Proofs.Program.Tower
import ThreeAddress.Proofs.Token.Trivia

/-!
# Reading undoes printing

The text of an expression, with a blank on either side of each operator and with parentheses only
where they are needed: around a left operand that binds less tightly than the operator, and around a
right operand that does not bind more tightly. The tokens of the text derive the expression again, and
how deep they nest can be told from the tree.

## Main definitions

* `Expr.print` is the text of an expression, and `Expr.nesting` how deep the text nests.
* `Expr.Printable` says that the numbers and the names of an expression can be written.
* `Cursor.Shows` says that an expression is spelled out in a text, up to places.
* `Expr.read_print` is the main result.
-/

namespace ThreeAddress

theorem Level.rank_injective {level level' : Level} (h : level.rank = level'.rank) : level = level' := by
  cases level <;> cases level' <;> first | rfl | cases h

/-! ## Texts of expressions -/

namespace Expr

/-- How loosely the expression binds; numbers and names are the tightest. -/
def rank : Expr → Nat
  | number _ | name _ => 0
  | binary op _ _ => op.level.rank + 1

/-- The text in parentheses, unless it may stand bare. -/
def enclose (bare : Bool) (text : String) : String :=
  if bare then text else "(" ++ text ++ ")"

/-- The text of an expression. -/
def print : Expr → String
  | number value => Decimal.ofWord value
  | name lexeme => lexeme.text
  | binary op lhs rhs =>
    enclose (lhs.rank ≤ op.level.rank + 1) lhs.print ++ " " ++ op.symbol ++ " "
      ++ enclose (rhs.rank ≤ op.level.rank) rhs.print

/-- The number of operators in the chain of a level that the expression is. -/
def chainLength (level : Level) : Expr → Nat
  | number _ | name _ => 0
  | binary op lhs _ => if op.level = level then lhs.chainLength level + 1 else 0

/-- How deep a text nests if it is put in parentheses, unless it may stand bare. -/
def encloseNesting (bare : Bool) (n : Nat) : Nat :=
  if bare then n else n + 1

/-- How deep the text of an expression nests: behind the operators of a chain so far, and in
parentheses. -/
def nesting : Expr → Nat
  | number _ | name _ => 0
  | binary op lhs rhs =>
    max (encloseNesting (lhs.rank ≤ op.level.rank + 1) lhs.nesting)
      (lhs.chainLength op.level + 1 + encloseNesting (rhs.rank ≤ op.level.rank) rhs.nesting)

/-- The numbers are not negative, and the names are names and no keywords. -/
def Printable : Expr → Prop
  | number value => 0 ≤ value.toInt
  | name lexeme => isIdentifier lexeme.text ∧ ∀ k : Keyword, k.word ≠ lexeme.text
  | binary _ lhs rhs => lhs.Printable ∧ rhs.Printable

instance decidablePrintable : (e : Expr) → Decidable e.Printable
  | number value => inferInstanceAs (Decidable (0 ≤ value.toInt))
  | name lexeme =>
    decidable_of_iff (isIdentifier lexeme.text ∧ Keyword.ofName? lexeme.text = none)
      (and_congr_right fun _ => Keyword.ofName?_eq_none_iff)
  | binary _ lhs rhs => @instDecidableAnd _ _ lhs.decidablePrintable rhs.decidablePrintable

/-- The part of the grammar that the expression is. -/
def part : Expr → Part
  | number _ | name _ => .primary
  | binary op lhs _ => .chain op.level (lhs.chainLength op.level + 1)

variable {e e' : Expr} {level inner : Level} {ts : List Token} {n k : Nat}

/-- A loose expression is no chain of a tight level. -/
theorem chainLength_eq_zero (loose : level.rank + 1 < e.rank) : e.chainLength level = 0 := by
  cases e with
  | number | name => rfl
  | binary op lhs rhs =>
    refine if_neg ?_
    rintro rfl
    exact Nat.lt_irrefl _ loose

/-- A chain is an operand of each looser level. -/
theorem Derives.operand_of_chain (h : Derives (.chain inner k) ts e n) (lt : inner.rank < level.rank) :
    Derives (.operand level) ts e n := by
  cases level with
  | factor => exact absurd lt (Nat.not_lt_zero _)
  | term =>
    cases inner with
    | factor => exact .term h
    | term | comparison => exact absurd lt (by decide)
  | comparison =>
    cases inner with
    | factor => exact .comparison (.first (.term h))
    | term => exact .comparison h
    | comparison => exact absurd lt (by decide)

/-- What binds tightly enough may be a right operand. -/
theorem Derives.operand_of_part (h : Derives e.part ts e' n) (bare : e.rank ≤ level.rank) :
    Derives (.operand level) ts e' n := by
  cases e with
  | number | name => exact h.operand level
  | binary op lhs rhs => exact h.operand_of_chain bare

/-- What binds at least as tightly may be a left operand. -/
theorem Derives.chain_of_part (h : Derives e.part ts e' n) (bare : e.rank ≤ level.rank + 1) :
    Derives (.chain level (e.chainLength level)) ts e' n := by
  cases e with
  | number | name => exact .first (h.operand level)
  | binary op lhs rhs =>
    rw [chainLength]
    split
    next same =>
      subst same
      exact h
    next other =>
      have different : op.level.rank ≠ level.rank := fun same => other (Level.rank_injective same)
      have tighter : op.level.rank < level.rank := by
        simp only [rank] at bare
        omega
      exact .first (h.operand_of_chain tighter)

/-- Every expression is a whole one. -/
theorem Derives.whole_of_part (h : Derives e.part ts e' n) : Derives .whole ts e' n := by
  have bare : e.rank ≤ Level.comparison.rank + 1 := by
    cases e with
    | number | name => exact Nat.zero_le _
    | binary op lhs rhs => exact Nat.succ_le_succ op.level.rank_le_two
  exact .whole (h.chain_of_part bare)

end Expr

/-! ## Words of a text -/

variable {rest : List Char}

/-- No trivia begin at a character of a name or a number. -/
theorem leadingTrivia_of_continuesName {c : Char} (h : continuesName c) (cs : List Char) :
    leadingTrivia (c :: cs) = [] := by
  refine leadingTrivia_eq_nil ?_
  rintro (⟨d, head, blank⟩ | ⟨later, comment⟩)
  · cases head
    exact not_isBlank_of_continuesName h blank
  · cases comment
    exact absurd h (by decide)

/-- A name ends where no character comes that goes on with it. -/
theorem munch?_name {w : List Char} (named : isIdentifier (String.ofList w))
    (free : ∀ k : Keyword, k.word ≠ String.ofList w) (ends : rest.takeWhile continuesName = []) :
    munch? (w ++ rest) = some (.identifier, w) := by
  obtain ⟨c, cs, rfl, starts, continues⟩ := isIdentifier_ofList_iff.mp named
  have kind : wordKind (c :: cs) = .identifier := by
    rw [wordKind, Keyword.ofName?_eq_none_iff.mpr free]
  rw [List.cons_append, munch?, if_pos starts, List.takeWhile_append_of_pos continues, ends,
    List.append_nil]
  exact congrArg (fun kind => some (kind, c :: cs)) kind

/-- A number ends where no digit comes. -/
theorem munch?_number {w : List Char} (some : w ≠ []) (digits : ∀ c ∈ w, c.isDigit)
    (ends : rest.takeWhile continuesName = []) : munch? (w ++ rest) = .some (.number, w) := by
  obtain ⟨c, cs, rfl⟩ := List.exists_cons_of_ne_nil some
  rw [List.forall_mem_cons] at digits
  have last : rest.takeWhile Char.isDigit = [] := by
    cases rest with
    | nil => rfl
    | cons d ds =>
      refine List.takeWhile_cons_of_neg fun digit => ?_
      rw [List.takeWhile_cons_of_pos (continuesName_of_isDigit digit)] at ends
      cases ends
  rw [List.cons_append, munch?, if_neg (by simp [startsName_eq_false_of_isDigit digits.1]),
    if_pos digits.1, List.takeWhile_append_of_pos digits.2, last, List.append_nil]

namespace Cursor

variable {c : Cursor} {e : Expr} {op : Operator} {part : Expr.Part} {k n : Nat} {text : List Char}

/-- The scan goes past a blank. -/
theorem scan_past_blank (h : c.rest = ' ' :: text) : (c.past [' ']).scan = c.scan := by
  have behind : (c.past [' ']).rest = text := by simp [h]
  have trivia : leadingTrivia c.rest = [' '] ++ leadingTrivia text := by
    rw [h, leadingTrivia_blank (by decide)]
    rfl
  have same : (c.past [' ']).skipTrivia = c.skipTrivia := by
    rw [skipTrivia, skipTrivia, behind, past_past, trivia]
  refine scan_congr ?_
  simp only [next, same]

theorem Yields.of_blank {ts : List Token} {c' : Cursor} (h : c.rest = ' ' :: text)
    (yields : (c.past [' ']).Yields ts c') : c.Yields ts c' := by
  rwa [Yields, ← scan_past_blank h]

/-- From the cursor on, an expression that nests `n` levels deep is spelled out in the text, up to
`rest` and up to the places of its names. -/
def Shows (c : Cursor) (part : Expr.Part) (e : Expr) (n : Nat) (rest : List Char) : Prop :=
  ∃ e', e'.unplaced = e.unplaced ∧ c.Spells part e' n rest

theorem Shows.imp {part' : Expr.Part} (h : c.Shows part e n rest)
    (derives : ∀ ts e', Expr.Derives part ts e' n → Expr.Derives part' ts e' n) :
    c.Shows part' e n rest := by
  obtain ⟨e', same, spells⟩ := h
  exact ⟨e', same, spells.imp fun ts => derives ts e'⟩

/-- What is shown behind a blank is shown from the blank on. -/
theorem Shows.of_blank (h : c.rest = ' ' :: text) (shows : (c.past [' ']).Shows part e n rest) :
    c.Shows part e n rest := by
  obtain ⟨e', same, ts, c', yields, left, derived⟩ := shows
  exact ⟨e', same, ts, c', yields.of_blank h, left, derived⟩

/-- A number that is not negative. -/
theorem shows_number {value : Int64} (h : c.rest = (Decimal.ofWord value).toList ++ rest)
    (positive : 0 ≤ value.toInt) (ends : rest.takeWhile continuesName = []) :
    c.Shows .primary (.number value) 0 rest := by
  obtain ⟨m, same⟩ := Int.eq_ofNat_of_zero_le positive
  have written : (Decimal.ofWord value).toList = Decimal.digits m := by
    rw [Decimal.ofWord, same]
    exact String.toList_ofList
  rw [written] at h
  have longest := munch?_number (Decimal.digits_ne_nil m)
    (fun _ => Decimal.isDigit_of_mem_digits) ends
  have solid : leadingTrivia (Decimal.digits m ++ rest) = [] := by
    obtain ⟨d, ds, split⟩ := List.exists_cons_of_ne_nil (Decimal.digits_ne_nil m)
    have digit : d.isDigit := Decimal.isDigit_of_mem_digits (n := m) (by simp [split])
    rw [split]
    exact leadingTrivia_of_continuesName (continuesName_of_isDigit digit) _
  obtain ⟨t, c', yields, kind, text, left⟩ := yields_text h solid longest
  have numeral : Decimal.IsNumeral t.text.toList value.toInt := by
    rw [text, ← written]
    exact Decimal.isNumeral_ofInt value.toInt
  exact ⟨.number value, rfl, [t], c', yields, left, .number kind numeral⟩

/-- A name that is no keyword. -/
theorem shows_name {lexeme : Lexeme} (h : c.rest = lexeme.text.toList ++ rest)
    (named : isIdentifier lexeme.text) (free : ∀ k : Keyword, k.word ≠ lexeme.text)
    (ends : rest.takeWhile continuesName = []) : c.Shows .primary (.name lexeme) 0 rest := by
  rw [← String.ofList_toList (s := lexeme.text)] at named
  have longest := munch?_name named (by rwa [String.ofList_toList]) ends
  have solid : leadingTrivia (lexeme.text.toList ++ rest) = [] := by
    obtain ⟨d, ds, split, starts, -⟩ := isIdentifier_ofList_iff.mp named
    have continues : continuesName d := by
      simp only [startsName, continuesName, Char.isAlphanum, Bool.or_eq_true] at starts ⊢
      exact starts.imp_left .inl
    rw [split]
    exact leadingTrivia_of_continuesName continues _
  obtain ⟨t, c', yields, kind, text, left⟩ := yields_text h solid longest
  have same : t.lexeme.text = lexeme.text := String.toList_inj.mp text
  refine ⟨.name t.lexeme, ?_, [t], c', yields, left, .name kind⟩
  simp only [Expr.unplaced, Lexeme.unplaced, same]

/-- Parentheses around what is shown behind the opening one. -/
theorem Shows.parens (h : c.rest = '(' :: text)
    (inside : ∀ c' : Cursor, c'.rest = text → c'.Shows .whole e n (')' :: rest)) :
    c.Shows .primary e (n + 1) rest := by
  obtain ⟨opening, c₁, opened, opens, -, left₁⟩ := yields_char h rfl rfl
  obtain ⟨e', same, ts, c₂, yields, left₂, derived⟩ := inside c₁ left₁
  obtain ⟨closing, c₃, closed, closes, -, left₃⟩ := yields_char left₂ rfl rfl
  exact ⟨e', same, opening :: (ts ++ [closing]), c₃, opened.trans (yields.trans closed), left₃,
    .parens opens derived closes⟩

/-- A chain goes on with an operator and an operand. -/
theorem Shows.binary {lhs rhs : Expr} {m : Nat}
    (left : c.Shows (.chain op.level k) lhs n (' ' :: (op.symbol.toList ++ ' ' :: text)))
    (right : ∀ c' : Cursor, c'.rest = text → c'.Shows (.operand op.level) rhs m rest) :
    c.Shows (.chain op.level (k + 1)) (.binary op lhs rhs) (max n (k + 1 + m)) rest := by
  have solid : leadingTrivia (op.symbol.toList ++ ' ' :: text) = [] := by
    cases op <;> rfl
  have longest : munch? (op.symbol.toList ++ ' ' :: text) = some (op.token, op.symbol.toList) := by
    cases op <;> rfl
  obtain ⟨lhs', same, ts, c₁, chained, left₁, before⟩ := left
  have operator : (c₁.past [' ']).rest = op.symbol.toList ++ ' ' :: text := by simp [left₁]
  obtain ⟨t, c₂, signed, sign, -, left₂⟩ := yields_text operator solid longest
  have operand : (c₂.past [' ']).rest = text := by simp [left₂]
  obtain ⟨rhs', same', us, c₃, ended, left₃, last⟩ := (right _ operand).of_blank left₂
  refine ⟨.binary op lhs' rhs', by simp only [Expr.unplaced, same, same'], ts ++ t :: us, c₃, ?_, left₃,
    .next before rfl sign last⟩
  exact chained.trans ((signed.of_blank left₁).trans ended)

/-- What is shown by itself is shown in parentheses, too; `bare` tells how it is written. -/
theorem Shows.enclose {bare : Bool} {part' : Expr.Part} (ends : rest.takeWhile continuesName = [])
    (h : c.rest = (Expr.enclose bare e.print).toList ++ rest)
    (inside : ∀ (c' : Cursor) (rest' : List Char), c'.rest = e.print.toList ++ rest' →
      rest'.takeWhile continuesName = [] → c'.Shows e.part e n rest')
    (asBare : bare → ∀ ts e', Expr.Derives e.part ts e' n → Expr.Derives part' ts e' n)
    (asPrimary : ¬bare → ∀ ts e' n, Expr.Derives .primary ts e' n → Expr.Derives part' ts e' n) :
    c.Shows part' e (Expr.encloseNesting bare n) rest := by
  cases bare with
  | true => exact (inside c rest h ends).imp (asBare rfl)
  | false =>
    have parens : c.rest = '(' :: (e.print.toList ++ ')' :: rest) := by simp [h, Expr.enclose]
    refine (Shows.parens parens fun c' left => ?_).imp fun ts e' => asPrimary (by decide) ts e' _
    exact (inside c' _ left rfl).imp fun ts e' derived => derived.whole_of_part

/-- A printable expression is shown by its text. -/
theorem shows_print {e : Expr} (printable : e.Printable) {c : Cursor} {rest : List Char}
    (h : c.rest = e.print.toList ++ rest) (ends : rest.takeWhile continuesName = []) :
    c.Shows e.part e e.nesting rest := by
  induction e generalizing c rest with
  | number value => exact shows_number h printable ends
  | name lexeme => exact shows_name h printable.1 printable.2 ends
  | binary op lhs rhs ihl ihr =>
    obtain ⟨left, right⟩ := printable
    have shape : c.rest = (Expr.enclose (lhs.rank ≤ op.level.rank + 1) lhs.print).toList
        ++ ' ' :: (op.symbol.toList
        ++ ' ' :: ((Expr.enclose (rhs.rank ≤ op.level.rank) rhs.print).toList ++ rest)) := by
      simp [h, Expr.print]
    refine Shows.binary (Shows.enclose rfl shape (fun c' rest' => ihl left) ?_ ?_)
      fun c' left' => Shows.enclose ends left' (fun c' rest' => ihr right) ?_ ?_
    · exact fun bare ts e' derived => derived.chain_of_part (of_decide_eq_true bare)
    · intro loose ts e' n derived
      rw [Expr.chainLength_eq_zero (by simpa using loose)]
      exact .first (derived.operand op.level)
    · exact fun bare ts e' derived => derived.operand_of_part (of_decide_eq_true bare)
    · exact fun _ ts e' n derived => derived.operand op.level

end Cursor

/-! ## Reading -/

/-- Reading undoes printing. The text of a printable expression consists of tokens, and a rule for
expressions reads all of them up to the end of the input. It yields the expression again, up to the
places of its names, just if its budget is enough for the nesting of the text, which is the one that
the tokens derive it with; else it fails because the text nests too deep. -/
theorem Expr.read_print {e : Expr} (printable : e.Printable) (file : Option String) :
    ∃ ts last e', Source.tokenize ⟨e.print, file⟩ = .ok (ts ++ [last]) ∧ last.kind = .eof ∧
      e'.unplaced = e.unplaced ∧ Derives .whole ts e' e.nesting ∧
      ∀ budget site, (e.nesting ≤ budget → Expr.rule budget site (ts ++ [last]) = .ok e' [last]) ∧
        (budget < e.nesting → (Expr.rule budget site (ts ++ [last])).IsTooDeep) := by
  have start : (Cursor.ofSource ⟨e.print, file⟩).rest = e.print.toList ++ [] :=
    (List.append_nil e.print.toList).symm
  obtain ⟨e', same, ts, c, yields, left, derived⟩ := Cursor.shows_print printable start rfl
  have whole := derived.whole_of_part
  refine ⟨ts, c.endToken, e', Source.tokenize_of_yields yields left, rfl, same, whole,
    fun budget site => ⟨fun le => ?_, fun lt => ?_⟩⟩
  · exact whole.read_whole budget le site rfl rfl []
  · exact whole.refuse_whole lt site [c.endToken]

/-- Operators of all levels, parentheses on either side, and the largest number. -/
theorem Expr.read_print_parentheses :
    let a : Expr := .name ⟨"a", ⟨7, 1⟩⟩
    let b : Expr := .name ⟨"if_2", ⟨0, 0⟩⟩
    let difference : Expr := .binary .sub a (.binary .sub b (.number 1))
    let e : Expr := .binary .le (.binary .mul difference (.number 2)) (.number 9223372036854775807)
    let text := "(a - (if_2 - 1)) * 2 <= 9223372036854775807"
    e.print = text ∧ e.nesting = 4 ∧
      ∃ ts last e', Source.tokenize ⟨text, none⟩ = .ok (ts ++ [last]) ∧ last.kind = .eof ∧
        e'.unplaced = e.unplaced ∧
        ∀ site, Expr.rule maxNesting site (ts ++ [last]) = .ok e' [last] ∧
          (Expr.rule 3 site (ts ++ [last])).IsTooDeep := by
  intro a b difference e text
  have printable : e.Printable := by decide
  have written : e.print = text := by decide +kernel
  have nests : e.nesting = 4 := by decide
  obtain ⟨ts, last, e', lexed, ends, same, -, read⟩ := Expr.read_print printable none
  rw [written] at lexed
  rw [nests] at read
  exact ⟨written, nests, ts, last, e', lexed, ends, same, fun site =>
    ⟨(read maxNesting site).1 (by decide), (read 3 site).2 (by decide)⟩⟩

end ThreeAddress
