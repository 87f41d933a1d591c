import ThreeAddress.Proofs.Code.Table
import ThreeAddress.Proofs.Machine.Effect
import Mathlib.Data.List.Nodup

/-!
# Temporaries are used once

The instructions of a program are those of its expressions, each behind the other with the instruction
that takes its value, and labels and jumps between them. The operators number their temporaries from the
first one to the last, and the value of each of them is taken once: by the operator above it, or by the
instruction behind the expression.

## Main definitions

* `Instruction.Takes` says that an instruction takes a value, and `Emitted` how instructions are put
  together; `Stmt.emitted_segment` says it of a statement.
* `HandedOver` says that a name is computed, and read behind operators only.
* `Emitted.map_result?`, `Emitted.readings_eq` and `Emitted.handedOver` tell of the temporaries.
* `Program.temporaries_used_once` is the main result.
-/

namespace ThreeAddress

open SymbolTable (temporaryName)

/-- Tells the instructions that apply an operator. -/
def Instruction.isBinary : Instruction → Bool
  | .binary .. => true
  | .assign .. | .label _ | .goto _ | .ifFalse .. | .ifTrue .. => false

/-- The instruction takes a value: it assigns the value to one of the names, or tests it. -/
inductive Instruction.Takes (names : List String) (value : Operand) : Instruction → Prop where
  | assign {result : String} (known : result ∈ names) : Takes names value (.assign result value)
  | ifFalse (target : Label) : Takes names value (.ifFalse value target)

/-- The instructions are put together from expressions over the names, each with an instruction that takes
its value, and from labels and jumps that read nothing. They need `count` temporaries, the first one with
the number `temp`. -/
inductive Emitted (names : List String) : (temp count : Nat) → List Instruction → Prop where
  | value (e : Expr) (known : ∀ o ∈ e.occurrences, o.text ∈ names) (temp : Nat) {i : Instruction}
      (takes : i.Takes names (e.result temp)) : Emitted names temp e.operators (e.segment temp ++ [i])
  | bare (temp : Nat) {instructions : List Instruction} (none : ∀ i ∈ instructions, i.operands = []) :
      Emitted names temp 0 instructions
  | append {temp m n : Nat} {xs ys : List Instruction} (first : Emitted names temp m xs)
      (later : Emitted names (temp + m) n ys) : Emitted names temp (m + n) (xs ++ ys)

variable {names : List String} {temp count n : Nat} {instructions : List Instruction} {i : Instruction}

/-! ## Statements -/

mutual

/-- The instructions of a statement are put together in this way. -/
theorem Stmt.emitted_segment (s : Stmt) (known : ∀ o ∈ s.occurrences, o.text ∈ names)
    (label temp : Nat) : Emitted names temp s.operators (s.segment label temp) := by
  match s with
  | .declare name e _ | .assign name e _ =>
    obtain ⟨here, others⟩ := List.forall_mem_cons.mp known
    exact .value e others temp (.assign here)
  | .ifThen condition body _ =>
    obtain ⟨knownC, knownB⟩ := List.forall_mem_append.mp known
    have test := Emitted.value condition knownC temp (.ifFalse ⟨label⟩)
    have inside := Stmt.emitted_segment body knownB (label + 1) (temp + condition.operators)
    have done : Emitted names (temp + (condition.operators + body.operators)) 0 [.label ⟨label⟩] :=
      .bare _ (by simp [Instruction.operands])
    exact (test.append inside).append done
  | .ifElse condition body otherwise _ =>
    obtain ⟨knownCB, knownO⟩ := List.forall_mem_append.mp known
    obtain ⟨knownC, knownB⟩ := List.forall_mem_append.mp knownCB
    have test := Emitted.value condition knownC temp (.ifFalse ⟨label⟩)
    have inside := Stmt.emitted_segment body knownB (label + 2) (temp + condition.operators)
    have elsewhere : Emitted names (temp + (condition.operators + body.operators)) otherwise.operators
        (otherwise.segment (label + 2 + body.labels) (temp + condition.operators + body.operators)) := by
      rw [← Nat.add_assoc]
      exact Stmt.emitted_segment otherwise knownO _ _
    have turn : Emitted names (temp + (condition.operators + body.operators)) 0
        [.goto ⟨label + 1⟩, .label ⟨label⟩] := .bare _ (by simp [Instruction.operands])
    have done : Emitted names (temp + (condition.operators + body.operators + otherwise.operators)) 0
        [.label ⟨label + 1⟩] := .bare _ (by simp [Instruction.operands])
    exact (((test.append inside).append turn).append elsewhere).append done
  | .loop condition body _ =>
    obtain ⟨knownC, knownB⟩ := List.forall_mem_append.mp known
    have entry : Emitted names temp 0 [.label ⟨label⟩] := .bare _ (by simp [Instruction.operands])
    have test := Emitted.value condition knownC temp (.ifFalse ⟨label + 1⟩)
    have inside := Stmt.emitted_segment body knownB (label + 2) (temp + condition.operators)
    have back : Emitted names (temp + (condition.operators + body.operators)) 0
        [.goto ⟨label⟩, .label ⟨label + 1⟩] := .bare _ (by simp [Instruction.operands])
    have all := entry.append ((test.append inside).append back)
    simpa [Stmt.segment, Stmt.operators] using all
  | .block body => exact Stmt.emitted_segmentAll body known label temp

theorem Stmt.emitted_segmentAll (body : List Stmt)
    (known : ∀ o ∈ Stmt.occurrencesAll body, o.text ∈ names) (label temp : Nat) :
    Emitted names temp (Stmt.operatorsAll body) (Stmt.segmentAll label temp body) := by
  match body with
  | [] => exact .bare temp nofun
  | s :: rest =>
    obtain ⟨knownS, knownR⟩ := List.forall_mem_append.mp known
    exact (Stmt.emitted_segment s knownS label temp).append
      (Stmt.emitted_segmentAll rest knownR (label + s.labels) (temp + s.operators))

end

/-! ## Results -/

/-- An instruction without operands has no result. -/
theorem Instruction.result?_of_operands (none : i.operands = []) : i.result? = .none := by
  cases i with
  | label l | goto l => rfl
  | assign | binary | ifFalse | ifTrue => simp [operands] at none

theorem Instruction.isBinary_of_operands (none : i.operands = []) : i.isBinary = false := by
  cases i with
  | label l | goto l => rfl
  | assign | binary | ifFalse | ifTrue => simp [operands] at none

theorem Instruction.Takes.isBinary {value : Operand} (takes : i.Takes names value) :
    i.isBinary = false := by
  cases takes <;> rfl

theorem Instruction.Takes.operands {value : Operand} (takes : i.Takes names value) :
    i.operands = [value] := by
  cases takes <;> rfl

theorem Expr.isBinary_of_mem_segment (e : Expr) (temp : Nat) :
    ∀ i ∈ e.segment temp, i.isBinary := by
  induction e generalizing temp with
  | number _ | name _ => exact nofun
  | binary op lhs rhs ihl ihr =>
    simp only [Expr.segment, List.forall_mem_append, List.forall_mem_singleton]
    exact ⟨⟨ihl temp, ihr _⟩, rfl⟩

/-- The temporaries of an operator come behind those of its operands, and its own is the last one. -/
theorem range'_operators (temp m n : Nat) :
    List.range' temp (m + n + 1) = List.range' temp m ++ List.range' (temp + m) n ++ [temp + m + n] := by
  rw [List.range'_1_concat, List.range'_append_1, Nat.add_assoc]

/-- The operators of an expression number their temporaries one after another. -/
theorem Expr.map_result?_segment (e : Expr) (temp : Nat) :
    (e.segment temp).map Instruction.result? =
      (List.range' temp e.operators).map fun n => some (temporaryName n) := by
  induction e generalizing temp with
  | number _ | name _ => rfl
  | binary op lhs rhs ihl ihr =>
    rw [Expr.segment, Expr.operators, range'_operators, List.map_append, List.map_append, ihl, ihr,
      List.map_append, List.map_append]
    rfl

namespace Emitted

/-- The operators number their temporaries one after another. -/
theorem map_result? (h : Emitted names temp count instructions) :
    (instructions.filter Instruction.isBinary).map Instruction.result? =
      (List.range' temp count).map fun n => some (temporaryName n) := by
  induction h with
  | value e known temp takes =>
    have all := List.filter_eq_self.mpr (e.isBinary_of_mem_segment temp)
    simp [all, takes.isBinary, e.map_result?_segment]
  | @bare temp instructions none =>
    have empty : instructions.filter Instruction.isBinary = [] := by
      simpa using fun i mem => Instruction.isBinary_of_operands (none i mem)
    simp [empty]
  | append _ _ first later =>
    rw [List.filter_append, List.map_append, first, later, ← List.map_append, List.range'_append_1]

/-- The result of an operator is a temporary. -/
theorem exists_temporaryName (h : Emitted names temp count instructions) :
    ∀ i ∈ instructions, i.isBinary → ∃ n, i.result? = some (temporaryName n) := by
  intro i mem binary
  have listed : i.result? ∈ (instructions.filter Instruction.isBinary).map Instruction.result? :=
    List.mem_map_of_mem (List.mem_filter.mpr ⟨mem, binary⟩)
  rw [h.map_result?] at listed
  obtain ⟨n, -, same⟩ := List.mem_map.mp listed
  exact ⟨n, same.symm⟩

/-- Other instructions store under one of the names, if they do. -/
theorem mem_of_result? (h : Emitted names temp count instructions) :
    ∀ i ∈ instructions, i.isBinary = false → ∀ name, i.result? = some name → name ∈ names := by
  induction h with
  | value e known temp takes =>
    simp only [List.forall_mem_append, List.forall_mem_singleton]
    refine ⟨fun i mem other => ?_, fun _ name writes => ?_⟩
    · simp [e.isBinary_of_mem_segment temp i mem] at other
    · cases takes with
      | assign known => cases writes; exact known
      | ifFalse => cases writes
  | bare temp none =>
    intro i mem _ name writes
    rw [Instruction.result?_of_operands (none i mem)] at writes
    cases writes
  | append _ _ first later => exact List.forall_mem_append.mpr ⟨first, later⟩

end Emitted

/-! ## Operands -/

/-- How often the temporary with the number `n` is among the operands of the instructions. -/
def readings (n : Nat) (instructions : List Instruction) : Nat :=
  (instructions.flatMap Instruction.operands).count (.name (temporaryName n))

@[simp] theorem readings_append (n : Nat) (xs ys : List Instruction) :
    readings n (xs ++ ys) = readings n xs + readings n ys := by
  simp [readings]

theorem readings_singleton (n : Nat) (i : Instruction) :
    readings n [i] = i.operands.count (.name (temporaryName n)) := by
  simp [readings]

theorem count_temporaryName (m n : Nat) :
    [Operand.name (temporaryName m)].count (.name (temporaryName n)) = [m].count n := by
  by_cases same : m = n
  · rw [same, List.count_singleton_self, List.count_singleton_self]
  · have other : temporaryName m ≠ temporaryName n := fun h => same (SymbolTable.temporaryName_injective h)
    simp [same, other]

/-- The temporaries of an expression are each read once, by its operators or as its value. -/
theorem Expr.readings_segment (e : Expr) (foreign : ∀ o ∈ e.occurrences, o.text ≠ temporaryName n)
    (temp : Nat) :
    readings n (e.segment temp) + [e.result temp].count (.name (temporaryName n)) =
      (List.range' temp e.operators).count n := by
  induction e generalizing temp with
  | number value => rfl
  | name lexeme =>
    have other : lexeme.text ≠ temporaryName n := foreign ⟨.used, lexeme⟩ (List.mem_singleton_self _)
    simp [readings, Expr.segment, Expr.result, Expr.operators, other]
  | binary op lhs rhs ihl ihr =>
    obtain ⟨foreignl, foreignr⟩ := List.forall_mem_append.mp foreign
    have left := ihl foreignl temp
    have right := ihr foreignr (temp + lhs.operators)
    have own := count_temporaryName (temp + lhs.operators + rhs.operators) n
    -- the root reads the values of both operands, and its own value is yet to be read
    have root : [lhs.result temp, rhs.result (temp + lhs.operators)].count (.name (temporaryName n)) =
        [lhs.result temp].count (.name (temporaryName n)) +
          [rhs.result (temp + lhs.operators)].count (.name (temporaryName n)) := by
      rw [← List.count_append, List.singleton_append]
    rw [Expr.segment, readings_append, readings_append, readings_singleton, Instruction.operands, root,
      Expr.result, own, Expr.operators, range'_operators, List.count_append, List.count_append]
    omega

/-- The temporaries are each read once. -/
theorem Emitted.readings_eq (h : Emitted names temp count instructions)
    (foreign : ∀ name ∈ names, name ≠ temporaryName n) :
    readings n instructions = (List.range' temp count).count n := by
  induction h with
  | value e known temp takes =>
    rw [readings_append, readings_singleton, takes.operands]
    exact e.readings_segment (fun o mem => foreign _ (known o mem)) temp
  | @bare temp instructions none =>
    have empty : instructions.flatMap Instruction.operands = [] := List.flatMap_eq_nil_iff.mpr none
    simp [readings, empty]
  | append _ _ first later =>
    rw [readings_append, first, later, ← List.count_append, List.range'_append_1]

/-! ## From the definition to the use -/

/-- One of the instructions computes the name, and behind it, with nothing but operators between, there is
one that reads the name. -/
def HandedOver (name : String) (instructions : List Instruction) : Prop :=
  ∃ before op lhs rhs between reader after,
    instructions = before ++ .binary op lhs rhs name :: (between ++ reader :: after) ∧
      (∀ i ∈ between, i.isBinary) ∧ .name name ∈ reader.operands

namespace HandedOver

variable {name : String} {xs ys : List Instruction}

theorem append_right (h : HandedOver name xs) (ys : List Instruction) : HandedOver name (xs ++ ys) := by
  obtain ⟨before, op, lhs, rhs, between, reader, after, rfl, binary, reads⟩ := h
  exact ⟨before, op, lhs, rhs, between, reader, after ++ ys, by simp, binary, reads⟩

theorem append_left (h : HandedOver name ys) (xs : List Instruction) : HandedOver name (xs ++ ys) := by
  obtain ⟨before, op, lhs, rhs, between, reader, after, rfl, binary, reads⟩ := h
  exact ⟨xs ++ before, op, lhs, rhs, between, reader, after, by simp, binary, reads⟩

end HandedOver

/-- The temporaries of an expression are handed over, where its value is read behind operators. -/
theorem Expr.handedOver_segment (e : Expr) (lower : temp ≤ n) (upper : n < temp + e.operators)
    {between : List Instruction} (binary : ∀ i ∈ between, i.isBinary) {reader : Instruction}
    (reads : e.result temp ∈ reader.operands) :
    HandedOver (temporaryName n) (e.segment temp ++ (between ++ [reader])) := by
  induction e generalizing temp between reader with
  | number _ | name _ =>
    simp only [Expr.operators] at upper
    omega
  | binary op lhs rhs ihl ihr =>
    rw [Expr.operators] at upper
    let root : Instruction := .binary op (lhs.result temp) (rhs.result (temp + lhs.operators))
      (temporaryName (temp + lhs.operators + rhs.operators))
    have readsLeft : lhs.result temp ∈ root.operands := List.mem_cons_self
    have readsRight : rhs.result (temp + lhs.operators) ∈ root.operands :=
      List.mem_cons_of_mem _ (List.mem_singleton_self _)
    have split : (Expr.binary op lhs rhs).segment temp ++ (between ++ [reader]) =
        lhs.segment temp ++ (rhs.segment (temp + lhs.operators) ++ [root]) ++ (between ++ [reader]) := by
      rw [Expr.segment, List.append_assoc (lhs.segment temp)]
    rw [split]
    rcases Nat.lt_or_ge n (temp + lhs.operators) with inLeft | behindLeft
    · -- the instructions of the right operand stand between a temporary of the left one and the root
      exact (ihl lower inLeft (rhs.isBinary_of_mem_segment _) readsLeft).append_right _
    · rcases Nat.lt_or_ge n (temp + lhs.operators + rhs.operators) with inRight | behindRight
      · have handed : HandedOver (temporaryName n) (rhs.segment (temp + lhs.operators) ++ ([] ++ [root])) :=
          ihr behindLeft inRight (List.forall_mem_nil _) readsRight
        exact (handed.append_left _).append_right _
      · obtain rfl : n = temp + lhs.operators + rhs.operators := by omega
        exact ⟨lhs.segment temp ++ rhs.segment (temp + lhs.operators), op, lhs.result temp,
          rhs.result (temp + lhs.operators), between, reader, [], by simp [root], binary, reads⟩

/-- The temporaries are handed over. -/
theorem Emitted.handedOver (h : Emitted names temp count instructions) (lower : temp ≤ n)
    (upper : n < temp + count) : HandedOver (temporaryName n) instructions := by
  induction h with
  | value e known temp takes =>
    have reads : e.result temp ∈ _ := takes.operands ▸ List.mem_singleton_self _
    exact e.handedOver_segment lower upper (List.forall_mem_nil _) reads
  | bare temp none => omega
  | @append temp m k xs ys _ _ first later =>
    rcases Nat.lt_or_ge n (temp + m) with early | late
    · exact (first lower early).append_right ys
    · exact (later late (by omega)).append_left xs

/-! ## Programs -/

/-- The temporaries of a table after some statements are among those that were asked for. -/
theorem Stmt.name_of_mem_temporaries (body : List Stmt) {s : Symbol}
    (mem : s ∈ (Stmt.enterAll .empty body).temporaries) :
    ∃ n < Stmt.operatorsAll body, s.name = temporaryName n := by
  let Asked (t : SymbolTable) : Prop :=
    ∀ s ∈ t.toList, s.isTemporary → ∃ n < t.allocated, s.name = temporaryName n
  have start : Asked .empty := by simp [Asked, SymbolTable.toList, SymbolTable.empty, OrderedMap.empty]
  have asked : Asked (Stmt.enterAll .empty body) := by
    refine Stmt.enterAll_induction (fun t name line all => ?_) (fun t all => ?_) body .empty start
    · exact SymbolTable.forall_mem_put all (by simp [Symbol.isTemporary])
    · intro s mem temporary
      rw [SymbolTable.allocated_fresh]
      by_cases known : t.contains (temporaryName t.allocated)
      · rw [SymbolTable.toList_fresh_of_known known] at mem
        obtain ⟨n, lt, name⟩ := all s mem temporary
        exact ⟨n, Nat.lt_succ_of_lt lt, name⟩
      · rw [SymbolTable.toList_fresh_of_new known] at mem
        rcases List.mem_append.mp mem with old | new
        · obtain ⟨n, lt, name⟩ := all s old temporary
          exact ⟨n, Nat.lt_succ_of_lt lt, name⟩
        · exact ⟨t.allocated, Nat.lt_succ_self _, by rw [List.mem_singleton.mp new, Symbol.name_new]⟩
  obtain ⟨listed, temporary⟩ := List.mem_filter.mp mem
  obtain ⟨n, lt, name⟩ := asked s listed temporary
  rw [Stmt.allocated_enterAll] at lt
  exact ⟨n, by simpa [SymbolTable.empty] using lt, name⟩

namespace Program

variable {program : Program} {source : Source} {code : Code} {t : Lowering}

/-- Each temporary of a program is defined once and used once. The operators number their results from
zero on, and no other instruction stores under the name of a temporary. Whatever temporary the table has,
it is the result of an operator, it is read once in the whole code, and that is behind its operator with
nothing but other operators between the two. -/
theorem temporaries_used_once (identifiers : ∀ name ∈ program.names, isIdentifier name)
    (lowered : program.lower source .empty = (.ok code, t)) :
    let operators := code.toList.filter Instruction.isBinary
    (∀ k i, operators[k]? = some i → i.result? = some (temporaryName k)) ∧
      (∀ i ∈ code.toList, i.isBinary = false → ∀ n, i.result? ≠ some (temporaryName n)) ∧
      (∀ s ∈ t.symbols.temporaries, ∃ n < operators.length, s.name = temporaryName n) ∧
      ∀ n < operators.length,
        (code.toList.flatMap Instruction.operands).count (.name (temporaryName n)) = 1 ∧
          HandedOver (temporaryName n) code.toList := by
  intro operators
  obtain ⟨listed, entered, -⟩ := lower_eq_ok lowered
  have known : ∀ o ∈ Stmt.occurrencesAll program, o.text ∈ program.names := fun o mem =>
    List.mem_map_of_mem mem
  have emitted : Emitted program.names 0 (Stmt.operatorsAll program) code.toList :=
    listed ▸ Stmt.emitted_segmentAll program known 0 0
  have foreign (n : Nat) : ∀ name ∈ program.names, name ≠ temporaryName n := fun name mem =>
    SymbolTable.isIdentifier_ne_temporaryName (identifiers name mem) n
  have results := emitted.map_result?
  have length : operators.length = Stmt.operatorsAll program := by
    simpa using congrArg List.length results
  refine ⟨fun k i here => ?_, fun i mem other n writes => ?_, fun s mem => ?_, fun n lt => ⟨?_, ?_⟩⟩
  · have within : k < operators.length := (List.getElem?_eq_some_iff.mp here).1
    have result : (operators.map Instruction.result?)[k]? = some i.result? := by
      rw [List.getElem?_map, here, Option.map_some]
    rw [results, List.getElem?_map, List.getElem?_range' (by omega), Nat.one_mul, Nat.zero_add,
      Option.map_some] at result
    exact (Option.some.inj result).symm
  · exact foreign n _ (emitted.mem_of_result? i mem other _ writes) rfl
  · rw [length]
    exact Stmt.name_of_mem_temporaries program (entered ▸ mem)
  · rw [← readings, emitted.readings_eq (foreign n)]
    have distinct : (List.range' 0 (Stmt.operatorsAll program)).Nodup := List.nodup_range'
    exact List.count_eq_one_of_mem distinct (List.mem_range'_1.mpr (by omega))
  · exact emitted.handedOver (Nat.zero_le n) (by omega)

/-- A difference of differences, whose first temporary waits for the second one, and a loop. -/
theorem temporaries_used_once_nested :
    let a : Lexeme := ⟨"a", ⟨4, 1⟩⟩
    let program : Program :=
      [.declare a (.binary .sub (.binary .sub (.number 1) (.number 2))
          (.binary .sub (.number 3) (.name a))) 1,
        .loop (.binary .lt (.name a) (.number 9)) (.assign a (.binary .mul (.name a) (.name a)) 2) 2]
    (∀ name ∈ program.names, isIdentifier name) ∧
      ∃ code t, program.lower ⟨"", none⟩ .empty = (.ok code, t) ∧
        (code.toList.filter Instruction.isBinary).length = 5 ∧
        (code.toList.flatMap Instruction.operands).count (.name "%t0") = 1 ∧
        HandedOver "%t0" code.toList := by
  intro a program
  have identifiers : ∀ name ∈ program.names, isIdentifier name := by decide
  obtain ⟨code, t, lowered⟩ : ∃ code t, program.lower ⟨"", none⟩ .empty = (.ok code, t) :=
    exists_lower_of_isOk (by decide +kernel)
  obtain ⟨emitted, -, -⟩ := lower_eq_ok lowered
  have length : (code.toList.filter Instruction.isBinary).length = 5 := by
    rw [emitted]
    decide +kernel
  obtain ⟨-, -, -, used⟩ := temporaries_used_once identifiers lowered
  obtain ⟨once, handed⟩ := used 0 (by rw [length]; decide)
  have first : temporaryName 0 = "%t0" := by decide +kernel
  rw [first] at once handed
  exact ⟨identifiers, code, t, lowered, length, once, handed⟩

end Program

end ThreeAddress
