import ThreeAddress.Proofs.Machine.Closed
import ThreeAddress.Proofs.Report

/-!
# What a listing tells

An instruction is listed as words with blanks between them. How many words there are tells the form
of the instruction, and the two conditional jumps, which have four words each, begin with different
ones. A name may be spelled like a word of the listing; that never matters, because a form has each
of its words at a place of its own. So a listing tells the instructions, one by one.

## Main definitions

* `Instruction.words` are the words that an instruction is listed as.
* `Instruction.IsNamed` says that the names of an instruction are names of a table.
* `Instruction.render_eq_iff`: instructions are listed the same just if they are the same.
* `Code.listing_exact` is the main result.
-/

namespace ThreeAddress

/-! ## Parts of an instruction -/

theorem Operator.symbol_injective {op op' : Operator} (same : op.symbol = op'.symbol) : op = op' := by
  cases op <;> cases op' <;> first | rfl | simp [symbol] at same

theorem Label.render_injective {l l' : Label} (same : l.render = l'.render) : l = l' := by
  rw [render, render, String.append_right_inj] at same
  exact congrArg Label.mk (Decimal.ofNat_injective same)

/-- No numeral is a name. -/
theorem IsSymbolName.ne_ofWord {name : String} (named : IsSymbolName name) (value : Int64) :
    Decimal.ofWord value ≠ name := by
  rintro rfl
  rcases named with identifier | ⟨n, temporary⟩
  · rw [← String.ofList_toList (s := Decimal.ofWord value)] at identifier
    obtain ⟨c, rest, split, starts, -⟩ := isIdentifier_ofList_iff.mp identifier
    rcases Decimal.mem_ofWord (n := value) (c := c) (by simp [split]) with rfl | digit
    · exact absurd starts (by decide)
    · rw [startsName_eq_false_of_isDigit digit] at starts
      cases starts
  · have percent : '%' ∈ (Decimal.ofWord value).toList := by
      simp [temporary, SymbolTable.temporaryName]
    exact absurd (Decimal.mem_ofWord percent) (by decide)

/-- The names of the operand are names that come into a table. -/
def Operand.IsNamed (operand : Operand) : Prop :=
  ∀ name ∈ operand.names, IsSymbolName name

/-- The names of the instruction are names that come into a table. -/
def Instruction.IsNamed (i : Instruction) : Prop :=
  ∀ name ∈ i.names, IsSymbolName name

namespace Operand

variable {operand operand' : Operand}

theorem isNamed_name {symbol : String} : (name symbol).IsNamed ↔ IsSymbolName symbol :=
  List.forall_mem_singleton

theorem render_injective (named : operand.IsNamed) (named' : operand'.IsNamed)
    (same : operand.render = operand'.render) : operand = operand' := by
  cases operand with
  | constant value =>
    cases operand' with
    | constant value' => rw [Decimal.ofWord_injective same]
    | name symbol' => exact absurd same ((isNamed_name.mp named').ne_ofWord value)
  | name symbol =>
    cases operand' with
    | constant value' => exact absurd same.symm ((isNamed_name.mp named).ne_ofWord value')
    | name symbol' => exact congrArg Operand.name same

/-- The characters of an operand are those of a number or of a name. -/
theorem mem_render (named : operand.IsNamed) {c : Char} (mem : c ∈ operand.render.toList) :
    c = '-' ∨ c = '%' ∨ continuesName c := by
  cases operand with
  | constant value =>
    refine (Decimal.mem_ofWord mem).imp_right fun digit => .inr ?_
    simp [continuesName, Char.isAlphanum, digit]
  | name symbol => exact .inr ((isNamed_name.mp named).mem mem)

end Operand

/-! ## Words -/

/-- What separates and what is separated are all the characters of a joined text. -/
theorem notMem_intercalate {separator c : Char} (other : c ≠ separator) {texts : List (List Char)}
    (within : ∀ text ∈ texts, c ∉ text) : c ∉ List.intercalate [separator] texts := by
  induction texts with
  | nil => simp
  | cons text others ih =>
    rw [List.forall_mem_cons] at within
    by_cases last : others = []
    · rw [last, List.intercalate_singleton]
      exact within.1
    · rw [List.intercalate_cons_of_ne_nil last]
      simp [within.1, other, ih within.2]

/-- A blank stands between two words of a listing, and a line feed between two lines. -/
def Separates (c : Char) : Prop :=
  c = ' ' ∨ c = '\n'

section

variable {c : Char} (separates : Separates c)

include separates

theorem IsSymbolName.separator_notMem {name : String} (named : IsSymbolName name) :
    c ∉ name.toList := by
  rcases separates with rfl | rfl
  · exact named.blank_notMem
  · exact named.newline_notMem

theorem Operand.separator_notMem {operand : Operand} (named : operand.IsNamed) :
    c ∉ operand.render.toList := by
  intro mem
  have letter := mem_render named mem
  rcases separates with rfl | rfl <;> exact absurd letter (by decide)

theorem Operator.separator_notMem (op : Operator) : c ∉ op.symbol.toList := by
  rcases separates with rfl | rfl <;> cases op <;> decide

theorem Decimal.separator_notMem (n : Nat) : c ∉ (ofNat n).toList := by
  intro mem
  have digit := isDigit_of_mem_ofNat mem
  rcases separates with rfl | rfl <;> exact absurd digit (by decide)

theorem Label.separator_notMem (l : Label) : c ∉ l.render.toList := by
  have letter : c ≠ 'L' := by
    rcases separates with rfl | rfl <;> decide
  rw [render, String.toList_append, List.mem_append]
  rintro (first | number)
  · exact letter (by simpa using first)
  · exact Decimal.separator_notMem separates l.number number

end

namespace Instruction

/-- The words that the instruction is listed as. -/
def words : Instruction → List String
  | assign result value => [result, "=", value.render]
  | binary op lhs rhs result => [result, "=", lhs.render, op.symbol, rhs.render]
  | label l => [l.render ++ ":"]
  | goto target => ["goto", target.render]
  | ifFalse condition target => ["if_false", condition.render, "goto", target.render]
  | ifTrue condition target => ["if_true", condition.render, "goto", target.render]

section

variable {result : String} {condition value lhs rhs : Operand}

theorem isNamed_assign : (assign result value).IsNamed ↔ IsSymbolName result ∧ value.IsNamed :=
  List.forall_mem_cons

theorem isNamed_binary {op : Operator} : (binary op lhs rhs result).IsNamed ↔
    IsSymbolName result ∧ lhs.IsNamed ∧ rhs.IsNamed :=
  List.forall_mem_cons.trans (and_congr_right fun _ => List.forall_mem_append)

end

variable {i j : Instruction}

theorem words_ne_nil (i : Instruction) : i.words ≠ [] := by
  cases i <;> simp [words]

/-- The listed text is the words, with a blank between two of them. -/
theorem toList_render (i : Instruction) :
    i.render.toList = List.intercalate [' '] (i.words.map String.toList) := by
  cases i <;> simp [render, words, List.intercalate]

/-- Words are set apart by their separators. -/
theorem separator_notMem_words (named : i.IsNamed) {c : Char} (separates : Separates c) :
    ∀ word ∈ i.words, c ∉ word.toList := by
  have fixed : ∀ word ∈ ["=", ":", "goto", "if_false", "if_true"], c ∉ word.toList := by
    rcases separates with rfl | rfl <;> decide
  have target (l : Label) : c ∉ l.render.toList := l.separator_notMem separates
  simp only [List.forall_mem_cons] at fixed
  obtain ⟨equals, colon, goto, if_false, if_true, -⟩ := fixed
  cases i with
  | assign result value =>
    obtain ⟨result_named, value_named⟩ := isNamed_assign.mp named
    simp only [words, List.forall_mem_cons]
    exact ⟨result_named.separator_notMem separates, equals,
      Operand.separator_notMem separates value_named, List.forall_mem_nil _⟩
  | binary op lhs rhs result =>
    obtain ⟨result_named, lhs_named, rhs_named⟩ := isNamed_binary.mp named
    simp only [words, List.forall_mem_cons]
    exact ⟨result_named.separator_notMem separates, equals,
      Operand.separator_notMem separates lhs_named, op.separator_notMem separates,
      Operand.separator_notMem separates rhs_named, List.forall_mem_nil _⟩
  | label l =>
    refine List.forall_mem_singleton.mpr ?_
    rw [String.toList_append, List.mem_append, not_or]
    exact ⟨target l, colon⟩
  | goto l =>
    simp only [words, List.forall_mem_cons]
    exact ⟨goto, target l, List.forall_mem_nil _⟩
  | ifFalse condition l =>
    simp only [words, List.forall_mem_cons]
    exact ⟨if_false, Operand.separator_notMem separates named, goto, target l, List.forall_mem_nil _⟩
  | ifTrue condition l =>
    simp only [words, List.forall_mem_cons]
    exact ⟨if_true, Operand.separator_notMem separates named, goto, target l, List.forall_mem_nil _⟩

/-- The number of words, and of four words the first one, tells the form of an instruction; then
each of its parts is one of the words. -/
theorem words_injective (named : i.IsNamed) (named' : j.IsNamed) (same : i.words = j.words) :
    i = j := by
  cases i <;> cases j <;> simp only [words, List.cons.injEq, reduceCtorEq, and_true, and_false,
    String.append_left_inj, true_and] at same
  case assign.assign result value result' value' =>
    obtain ⟨rfl, value_eq⟩ := same
    rw [Operand.render_injective (isNamed_assign.mp named).2 (isNamed_assign.mp named').2 value_eq]
  case binary.binary op lhs rhs result op' lhs' rhs' result' =>
    obtain ⟨-, lhs_named, rhs_named⟩ := isNamed_binary.mp named
    obtain ⟨-, lhs_named', rhs_named'⟩ := isNamed_binary.mp named'
    obtain ⟨rfl, lhs_eq, op_eq, rhs_eq⟩ := same
    rw [Operand.render_injective lhs_named lhs_named' lhs_eq, Operator.symbol_injective op_eq,
      Operand.render_injective rhs_named rhs_named' rhs_eq]
  case label.label l l' => rw [Label.render_injective same]
  case goto.goto l l' => rw [Label.render_injective same]
  case ifFalse.ifFalse condition l condition' l' =>
    rw [Operand.render_injective named named' same.1, Label.render_injective same.2]
  case ifTrue.ifTrue condition l condition' l' =>
    rw [Operand.render_injective named named' same.1, Label.render_injective same.2]
  case ifFalse.ifTrue => exact absurd same.1 (by decide)
  case ifTrue.ifFalse => exact absurd same.1 (by decide)

/-- Instructions are listed the same just if they are the same. -/
theorem render_eq_iff (named : i.IsNamed) (named' : j.IsNamed) : i.render = j.render ↔ i = j := by
  have split {i : Instruction} (named : i.IsNamed) :
      List.splitOn ' ' i.render.toList = i.words.map String.toList := by
    rw [toList_render]
    exact List.splitOn_intercalate ' '
      (List.forall_mem_map.mpr (separator_notMem_words named (.inl rfl))) (by simp [words_ne_nil])
  refine ⟨fun same => words_injective named named' ?_, congrArg render⟩
  have words_eq := split named
  rw [same, split named', List.map_inj_right fun _ _ => String.toList_inj.mp] at words_eq
  exact words_eq.symm

/-- An instruction is listed on one line. -/
theorem newline_notMem_render (named : i.IsNamed) : '\n' ∉ i.render.toList := by
  rw [toList_render]
  refine notMem_intercalate (by decide) (List.forall_mem_map.mpr ?_)
  exact separator_notMem_words named (.inr rfl)

end Instruction

/-! ## Lines -/

namespace Code

/-- The number of a line, with what stands between it and the instruction. -/
def lineNumber (n : Nat) : String :=
  Text.padLeft 4 (Decimal.ofNat n) ++ ". "

theorem numberedFrom_cons (n : Nat) (i : Instruction) (rest : List Instruction) :
    numberedFrom n (i :: rest) = (lineNumber n ++ i.render) :: numberedFrom (n + 1) rest := rfl

theorem newline_notMem_lineNumber (n : Nat) : '\n' ∉ (lineNumber n).toList := by
  have number : '\n' ∉ (Decimal.ofNat n).toList := Decimal.separator_notMem (.inr rfl) n
  simp only [lineNumber, String.toList_append, Text.toList_padLeft, List.mem_append,
    List.mem_replicate, not_or]
  exact ⟨⟨fun blank => absurd blank.2 (by decide), number⟩, by decide⟩

/-- Each numbered instruction is a line of its own. -/
theorem newline_notMem_numberedFrom {is : List Instruction} (named : ∀ i ∈ is, i.IsNamed) (n : Nat) :
    ∀ line ∈ numberedFrom n is, '\n' ∉ line.toList := by
  induction is generalizing n with
  | nil => exact List.forall_mem_nil _
  | cons i rest ih =>
    rw [List.forall_mem_cons] at named
    rw [numberedFrom_cons, List.forall_mem_cons, String.toList_append, List.mem_append, not_or]
    exact ⟨⟨newline_notMem_lineNumber n, i.newline_notMem_render named.1⟩, ih named.2 (n + 1)⟩

theorem numberedFrom_ne_nil {is : List Instruction} {n : Nat} :
    ∀ line ∈ numberedFrom n is, line.toList ≠ [] := by
  induction is generalizing n with
  | nil => exact List.forall_mem_nil _
  | cons i rest ih =>
    rw [numberedFrom_cons, List.forall_mem_cons]
    exact ⟨by simp [lineNumber], ih⟩

/-- Lines with the same numbers tell their instructions. -/
theorem numberedFrom_injective {is js : List Instruction} (named : ∀ i ∈ is, i.IsNamed)
    (named' : ∀ j ∈ js, j.IsNamed) {n : Nat} (same : numberedFrom n is = numberedFrom n js) :
    is = js := by
  induction is generalizing js n with
  | nil =>
    cases js with
    | nil => rfl
    | cons j rest' => cases same
  | cons i rest ih =>
    cases js with
    | nil => cases same
    | cons j rest' =>
      rw [List.forall_mem_cons] at named named'
      rw [numberedFrom_cons, numberedFrom_cons, List.cons.injEq, String.append_right_inj] at same
      rw [(Instruction.render_eq_iff named.1 named'.1).mp same.1, ih named.2 named'.2 same.2]

variable {code code' : Code}

/-- The lines of a listing; only a listing of nothing has one that is empty. -/
theorem lines_listing (named : ∀ i ∈ code.toList, i.IsNamed) :
    (lines code.listing.toList).filter (· ≠ []) = (numberedFrom 1 code.toList).map String.toList := by
  rw [listing, String.toList_intercalate]
  have within := newline_notMem_numberedFrom named 1
  cases split : code.toList with
  | nil => rfl
  | cons i rest =>
    rw [split] at within
    rw [show "\n".toList = ['\n'] from rfl, lines_intercalate (by simp [numberedFrom_cons])
      (List.forall_mem_map.mpr within), List.filter_eq_self, List.forall_mem_map]
    exact fun line mem => decide_eq_true (numberedFrom_ne_nil line mem)

/-- Listings are the same just if the codes are, and so it is for single instructions: whatever the
names are spelled like, and whatever the constants and the labels are. -/
theorem listing_exact (named : ∀ i ∈ code, i.IsNamed) (named' : ∀ i ∈ code', i.IsNamed) :
    (code.listing = code'.listing ↔ code = code') ∧
    ∀ i j : Instruction, i.IsNamed → j.IsNamed → (i.render = j.render ↔ i = j) := by
  have named (i) (mem : i ∈ code.toList) : i.IsNamed := named i (Array.mem_toList_iff.mp mem)
  have named' (i) (mem : i ∈ code'.toList) : i.IsNamed := named' i (Array.mem_toList_iff.mp mem)
  refine ⟨⟨fun same => ?_, congrArg listing⟩, fun i j => Instruction.render_eq_iff⟩
  have rows := lines_listing named
  rw [same, lines_listing named', List.map_inj_right fun _ _ => String.toList_inj.mp] at rows
  exact Array.toList_inj.mp (numberedFrom_injective named named' rows.symm)

/-- Names that are spelled like the words of a listing, behind or before a negative number. -/
theorem listing_exact_keywords :
    let goto : Operand := .name "goto"
    let jumps : Code := #[.assign "if_false" (.constant (-1)), .binary .sub goto (.constant (-1)) "L0",
      .ifFalse goto ⟨0⟩, .goto ⟨0⟩, .label ⟨0⟩]
    let moves : Code := #[.assign "if_false" (.constant (-1)), .binary .sub goto (.constant 1) "L0",
      .ifTrue goto ⟨0⟩, .assign "goto" (.name "L0"), .assign "L0" (.name "%t0")]
    (∀ i ∈ jumps, i.IsNamed) ∧ (∀ i ∈ moves, i.IsNamed) ∧ jumps.listing ≠ moves.listing ∧
      (Instruction.ifFalse goto ⟨0⟩).render ≠ (Instruction.assign "if_false" goto).render := by
  intro goto jumps moves
  have spelled : ∀ name ∈ ["if_false", "goto", "L0", "%t0"], IsSymbolName name := by
    simp only [List.forall_mem_cons]
    exact ⟨.inl (by decide), .inl (by decide), .inl (by decide), .inr ⟨0, by decide +kernel⟩,
      List.forall_mem_nil _⟩
  have named (i : Instruction) (among : ∀ name ∈ i.names, name ∈ ["if_false", "goto", "L0", "%t0"]) :
      i.IsNamed := fun name mem => spelled name (among name mem)
  have jumps_named : ∀ i ∈ jumps, i.IsNamed := fun i mem => named i (by revert i; decide)
  have moves_named : ∀ i ∈ moves, i.IsNamed := fun i mem => named i (by revert i; decide)
  obtain ⟨listings, renders⟩ := listing_exact jumps_named moves_named
  exact ⟨jumps_named, moves_named, mt listings.mp (by decide),
    mt (renders _ _ (named _ (by decide)) (named _ (by decide))).mp (by decide)⟩

end Code

end ThreeAddress
