import ThreeAddress.Machine.Basic
import ThreeAddress.Proofs.Program.Occurrence
import ThreeAddress.Proofs.Text.Decimal
import Mathlib.Logic.Function.Iterate

/-!
# Tables in good order

What every operation of a symbol table keeps: no name comes twice, and each symbol stands under
its own name. In such a table a new temporary has the name that its number gives it, and the store
of a machine begins with one word for each symbol, in the order of the table.

## Main definitions

* `SymbolTable.WellKept` is the invariant.
* `SymbolTable.allocate` asks for several temporaries.
* `SymbolTable.Truthful` says that the initialized symbols are those with a value,
  `SymbolTable.Valueless` that no symbol has a value yet, `SymbolTable.Complete` that the
  temporaries are all there, and `SymbolTable.Vacant` that those to come are not.
* `SymbolTable.isIdentifier_ne_temporaryName`: no identifier is the name of a temporary.
-/

namespace ThreeAddress

namespace SymbolTable

/-- No name comes twice, and each symbol stands under its own name. -/
structure WellKept (t : SymbolTable) : Prop where
  distinct : t.symbols.keys.Nodup
  named : ∀ entry ∈ t.symbols.entries, entry.2.name = entry.1

/-- The table after `n` more temporaries. -/
def allocate (t : SymbolTable) (n : Nat) : SymbolTable :=
  (fun table => table.fresh.2)^[n] t

@[simp] theorem allocate_zero (t : SymbolTable) : t.allocate 0 = t := rfl

/-- Temporaries are allocated one after another. -/
theorem allocate_add (t : SymbolTable) (m n : Nat) :
    t.allocate (m + n) = (t.allocate m).allocate n := by
  rw [allocate, Nat.add_comm, Function.iterate_add_apply]
  rfl

theorem allocate_succ (t : SymbolTable) (n : Nat) : t.allocate (n + 1) = (t.allocate n).fresh.2 :=
  allocate_add t n 1

theorem temporaryName_injective {m n : Nat} (h : temporaryName m = temporaryName n) : m = n := by
  apply Decimal.ofNat_injective
  simpa [temporaryName, String.append_right_inj] using h

/-- A percent sign begins no identifier. -/
theorem isIdentifier_ne_temporaryName {text : String} (h : isIdentifier text) (n : Nat) :
    text ≠ temporaryName n := by
  rintro rfl
  have percent : startsName '%' = false := by decide
  simp [isIdentifier, temporaryName, percent] at h

@[simp] theorem contains_put (t : SymbolTable) (s : Symbol) (name : String) :
    (t.put s).contains name ↔ s.name = name ∨ t.contains name := by
  by_cases h : s.name = name <;> simp [contains, get?, put, h]

theorem contains_eq_true_iff (t : SymbolTable) (name : String) :
    t.contains name ↔ name ∈ t.symbols.keys :=
  (t.symbols.mem_keys_iff name).symm

theorem wellKept_empty : empty.WellKept :=
  ⟨List.nodup_nil, by simp [empty, OrderedMap.empty]⟩

theorem WellKept.put {t : SymbolTable} (h : t.WellKept) (s : Symbol) : (t.put s).WellKept := by
  constructor
  · rw [SymbolTable.put, OrderedMap.keys_insert]
    split
    next => exact h.distinct
    next new =>
      refine List.nodup_append.mpr ⟨h.distinct, by simp, ?_⟩
      intro known mem other here heq
      rw [List.mem_singleton.mp here] at heq
      exact new (heq ▸ mem)
  · intro entry member
    rcases OrderedMap.mem_put member with rfl | old
    · rfl
    · exact h.named entry old

/-- The table a new temporary leaves, whether its name was known or not. -/
theorem fresh_snd (t : SymbolTable) :
    t.fresh.2 = if t.contains (temporaryName t.allocated) then { t with allocated := t.allocated + 1 }
      else { t with allocated := t.allocated + 1 }.put
        (.new (temporaryName t.allocated) .temporary none none) := by
  simp only [fresh, contains, get?]
  split <;> simp_all

@[simp] theorem allocated_fresh (t : SymbolTable) : t.fresh.2.allocated = t.allocated + 1 := by
  rw [fresh_snd]
  split <;> rfl

@[simp] theorem allocated_put (t : SymbolTable) (s : Symbol) : (t.put s).allocated = t.allocated := rfl

/-- A new name comes last. -/
theorem keys_put (t : SymbolTable) (s : Symbol) :
    (t.put s).symbols.keys =
      if s.name ∈ t.symbols.keys then t.symbols.keys else t.symbols.keys ++ [s.name] :=
  OrderedMap.keys_insert t.symbols s.name s

@[simp] theorem allocated_allocate (t : SymbolTable) (n : Nat) :
    (t.allocate n).allocated = t.allocated + n := by
  induction n with
  | zero => rfl
  | succ n ih => rw [allocate_succ, allocated_fresh, ih, Nat.add_assoc]

theorem contains_fresh (t : SymbolTable) (name : String) :
    t.fresh.2.contains name ↔ temporaryName t.allocated = name ∨ t.contains name := by
  rw [fresh_snd]
  split
  next known =>
    refine ⟨.inr, ?_⟩
    rintro (rfl | h)
    · exact known
    · exact h
  next => rw [contains_put]; rfl

/-- The names after a new temporary. -/
theorem keys_fresh (t : SymbolTable) :
    t.fresh.2.symbols.keys =
      if temporaryName t.allocated ∈ t.symbols.keys then t.symbols.keys
      else t.symbols.keys ++ [temporaryName t.allocated] := by
  rw [fresh_snd]
  by_cases known : t.contains (temporaryName t.allocated)
  · rw [if_pos known, if_pos ((contains_eq_true_iff t _).mp known)]
  · rw [if_neg known]
    exact keys_put { t with allocated := t.allocated + 1 } _

theorem WellKept.fresh {t : SymbolTable} (h : t.WellKept) : t.fresh.2.WellKept := by
  have counted : WellKept { t with allocated := t.allocated + 1 } := ⟨h.distinct, h.named⟩
  rw [fresh_snd]
  split
  · exact counted
  · exact counted.put _

/-- In a table in good order, a temporary has the name of its number. -/
theorem WellKept.name_fresh {t : SymbolTable} (h : t.WellKept) :
    t.fresh.1.name = temporaryName t.allocated := by
  simp only [SymbolTable.fresh]
  split
  next s known => exact h.named _ (OrderedMap.mem_of_lookup? known)
  next => rfl

theorem WellKept.allocate {t : SymbolTable} (h : t.WellKept) (n : Nat) : (t.allocate n).WellKept := by
  induction n with
  | zero => exact h
  | succ n ih => rw [allocate_succ]; exact ih.fresh

/-- The names of a table in good order are its keys. -/
theorem WellKept.map_name_toList {t : SymbolTable} (h : t.WellKept) :
    t.toList.map Symbol.name = t.symbols.keys := by
  rw [toList, OrderedMap.keys, List.map_map]
  exact List.map_congr_left h.named

/-- In a table in good order a look-up finds every symbol by its name. -/
theorem WellKept.get?_eq_some_iff {t : SymbolTable} (h : t.WellKept) {name : String} {s : Symbol} :
    t.get? name = some s ↔ s ∈ t.toList ∧ s.name = name := by
  rw [get?, OrderedMap.get?, OrderedMap.lookup?_eq_some_iff h.distinct, toList, List.mem_map]
  constructor
  · intro member
    exact ⟨⟨_, member, rfl⟩, h.named _ member⟩
  · rintro ⟨⟨⟨key, _⟩, member, rfl⟩, rfl⟩
    rwa [h.named _ member]

/-! ## Answers -/

section

variable {t t' : SymbolTable} {name : String}

theorem declare_of_contains {s : Symbol} (known : t.contains s.name) :
    t.declare s = .error (.redeclared s.name s.line) := by
  rw [declare, if_pos known]

theorem declare_of_new {s : Symbol} (new : ¬t.contains s.name) : t.declare s = .ok (t.put s) := by
  rw [declare, if_neg new]

theorem update_of_new (new : ¬t.contains name) (value : Int64) :
    t.update name value = .error (.undeclared name) := by
  have absent : t.get? name = none := by simpa [contains] using new
  simp only [update, absent]

/-- A known name can be given a value. -/
theorem exists_update_of_contains (known : t.contains name) (value : Int64) :
    ∃ t', t.update name value = .ok t' := by
  obtain ⟨s, found⟩ := Option.isSome_iff_exists.mp known
  exact ⟨{ t with symbols := t.symbols.insert name (s.assign value) }, by simp only [update, found]⟩

/-- A name that was given a value has a symbol, which was changed. -/
theorem update_eq_ok_iff {value : Int64} :
    t.update name value = .ok t' ↔
      ∃ s, t.get? name = some s ∧ t' = { t with symbols := t.symbols.insert name (s.assign value) } := by
  simp only [update]
  cases t.get? name with
  | some s => simp [eq_comm]
  | none => simp

theorem allocated_update {value : Int64} (updated : t.update name value = .ok t') :
    t'.allocated = t.allocated := by
  obtain ⟨s, -, rfl⟩ := update_eq_ok_iff.mp updated
  rfl

/-- A value changes no names. -/
theorem keys_update {value : Int64} (updated : t.update name value = .ok t') :
    t'.symbols.keys = t.symbols.keys := by
  obtain ⟨s, found, rfl⟩ := update_eq_ok_iff.mp updated
  have known : t.contains name := Option.isSome_iff_exists.mpr ⟨s, found⟩
  rw [OrderedMap.keys_insert, if_pos ((contains_eq_true_iff t name).mp known)]

end

/-! ## Symbols in their order -/

/-- A symbol with a new name comes last. -/
theorem toList_put {t : SymbolTable} {s : Symbol} (new : ¬t.contains s.name) :
    (t.put s).toList = t.toList ++ [s] := by
  rw [contains_eq_true_iff] at new
  have last : (t.put s).symbols.entries = t.symbols.entries ++ [(s.name, s)] :=
    OrderedMap.put_of_notMem new
  rw [toList, last, List.map_append]
  rfl

/-- A temporary whose name is new comes last. -/
theorem toList_fresh_of_new {t : SymbolTable} (new : ¬t.contains (temporaryName t.allocated)) :
    t.fresh.2.toList = t.toList ++ [.new (temporaryName t.allocated) .temporary none none] := by
  rw [fresh_snd, if_neg new]
  exact toList_put (t := { t with allocated := t.allocated + 1 }) new

/-- A temporary whose name is known adds no symbol. -/
theorem toList_fresh_of_known {t : SymbolTable} (known : t.contains (temporaryName t.allocated)) :
    t.fresh.2.toList = t.toList := by
  rw [fresh_snd, if_pos known]
  rfl

/-- A new value goes to the symbol of its name, which stays in its place. -/
theorem WellKept.toList_update {t t' : SymbolTable} (h : t.WellKept) {name : String} {value : Int64}
    (updated : t.update name value = .ok t') :
    t'.toList = t.toList.map fun s => if s.name = name then s.assign value else s := by
  obtain ⟨s, known, rfl⟩ := update_eq_ok_iff.mp updated
  have changed : (OrderedMap.put name (s.assign value) t.symbols.entries) = _ :=
    OrderedMap.put_eq_map (fun s : Symbol => s.assign value) h.distinct known
  simp only [toList, OrderedMap.insert, changed, List.map_map]
  refine List.map_congr_left fun entry member => ?_
  simp only [Function.comp_apply, h.named entry member]
  split <;> rfl

theorem WellKept.update {t t' : SymbolTable} (h : t.WellKept) {name : String} {value : Int64}
    (updated : t.update name value = .ok t') : t'.WellKept := by
  obtain ⟨s, known, rfl⟩ := update_eq_ok_iff.mp updated
  obtain ⟨-, rfl⟩ := h.get?_eq_some_iff.mp known
  exact h.put (s.assign value)

/-- In a table in good order a symbol is told by its name. -/
theorem WellKept.eq_of_name_eq {t : SymbolTable} (h : t.WellKept) {s s' : Symbol}
    (mem : s ∈ t.toList) (mem' : s' ∈ t.toList) (same : s.name = s'.name) : s = s' := by
  have first := h.get?_eq_some_iff.mpr ⟨mem, same⟩
  have second := h.get?_eq_some_iff.mpr ⟨mem', rfl⟩
  exact Option.some.inj (first.symm.trans second)

/-- The store begins with one word for each symbol. -/
theorem WellKept.entries_initialStore {t : SymbolTable} (h : t.WellKept) :
    t.initialStore.entries = t.toList.map fun s => (s.name, s.initialWord) := by
  apply OrderedMap.entries_ofList
  rw [List.map_map]
  exact h.map_name_toList ▸ h.distinct

/-- The names of the store at the beginning are those of the table. -/
theorem WellKept.keys_initialStore {t : SymbolTable} (h : t.WellKept) :
    t.initialStore.keys = t.toList.map Symbol.name := by
  rw [OrderedMap.keys, h.entries_initialStore, List.map_map]
  rfl

/-! ## Symbols and their values -/

section

variable {t t' : SymbolTable} {P : Symbol → Prop}

/-- What holds of all symbols and of one more, holds of all symbols then. -/
theorem forall_mem_put (all : ∀ s ∈ t.toList, P s) {s : Symbol} (here : P s) :
    ∀ s' ∈ (t.put s).toList, P s' := by
  intro s' member
  obtain ⟨entry, listed, rfl⟩ := List.mem_map.mp member
  rcases OrderedMap.mem_put listed with rfl | old
  · exact here
  · exact all _ (List.mem_map_of_mem old)

theorem forall_mem_fresh (all : ∀ s ∈ t.toList, P s)
    (here : ∀ n, P (.new (temporaryName n) .temporary none none)) : ∀ s ∈ t.fresh.2.toList, P s := by
  rw [fresh_snd]
  split
  · exact all
  · exact forall_mem_put (t := { t with allocated := t.allocated + 1 }) all (here _)

/-- The symbols that count as initialized are the ones that have a value. -/
def Truthful (t : SymbolTable) : Prop :=
  ∀ s ∈ t.toList, s.isInitialized = s.value.isSome

theorem truthful_empty : empty.Truthful := by
  simp [Truthful, empty, toList, OrderedMap.empty]

theorem Truthful.put (h : t.Truthful) {s : Symbol} (here : s.isInitialized = s.value.isSome) :
    (t.put s).Truthful :=
  forall_mem_put h here

theorem Truthful.fresh (h : t.Truthful) : t.fresh.2.Truthful :=
  forall_mem_fresh h fun _ => rfl

theorem Truthful.update (h : t.Truthful) (kept : t.WellKept) {name : String} {value : Int64}
    (updated : t.update name value = .ok t') : t'.Truthful := by
  intro s member
  rw [kept.toList_update updated] at member
  obtain ⟨old, listed, rfl⟩ := List.mem_map.mp member
  split
  · rfl
  · exact h old listed

/-- No symbol has a value. -/
def Valueless (t : SymbolTable) : Prop :=
  ∀ entry ∈ t.symbols.entries, entry.2.value = none

theorem valueless_iff : t.Valueless ↔ ∀ s ∈ t.toList, s.value = none := by
  rw [Valueless, toList, List.forall_mem_map]

theorem valueless_empty : empty.Valueless := by
  simp [Valueless, empty, OrderedMap.empty]

theorem Valueless.put (h : t.Valueless) {s : Symbol} (none : s.value = none) : (t.put s).Valueless :=
  valueless_iff.mpr (forall_mem_put (valueless_iff.mp h) none)

theorem Valueless.fresh (h : t.Valueless) : t.fresh.2.Valueless :=
  valueless_iff.mpr (forall_mem_fresh (valueless_iff.mp h) fun _ => rfl)

end

/-- Where no symbol has a value, every name begins with zero. -/
theorem WellKept.get?_initialStore {t : SymbolTable} (kept : t.WellKept) (valueless : t.Valueless)
    {name : String} (known : t.contains name) : t.initialStore.get? name = some 0 := by
  rw [contains_eq_true_iff, OrderedMap.keys, List.mem_map] at known
  obtain ⟨entry, member, rfl⟩ := known
  have zero : entry.2.initialWord = 0 := by
    simp only [Symbol.initialWord, valueless entry member]
    split <;> rfl
  have listed : (entry.1, (0 : Int64)) ∈ t.initialStore.entries := by
    rw [kept.entries_initialStore, toList, List.map_map]
    exact List.mem_map.mpr ⟨entry, member, by simp [kept.named entry member, zero]⟩
  refine (OrderedMap.lookup?_eq_some_iff ?_).mpr listed
  rw [kept.entries_initialStore, List.map_map]
  exact kept.map_name_toList ▸ kept.distinct

/-! ## Temporaries that are there, and those to come -/

/-- Every temporary that was asked for has a symbol. -/
def Complete (t : SymbolTable) : Prop :=
  ∀ n < t.allocated, t.contains (temporaryName n)

theorem complete_empty : empty.Complete := by
  simp [Complete, empty]

theorem Complete.put {t : SymbolTable} (h : t.Complete) (s : Symbol) : (t.put s).Complete := by
  intro n lt
  exact (contains_put t s _).mpr (.inr (h n lt))

theorem Complete.fresh {t : SymbolTable} (h : t.Complete) : t.fresh.2.Complete := by
  intro n lt
  rw [allocated_fresh] at lt
  rw [contains_fresh]
  rcases Nat.lt_succ_iff_lt_or_eq.mp lt with earlier | rfl
  · exact .inr (h n earlier)
  · exact .inl rfl

/-- No temporary that is still to come has a symbol. -/
def Vacant (t : SymbolTable) : Prop :=
  ∀ n, t.allocated ≤ n → ¬t.contains (temporaryName n)

theorem vacant_empty : empty.Vacant := by
  simp [Vacant, empty, contains, get?]

theorem Vacant.put {t : SymbolTable} (h : t.Vacant) {s : Symbol} (other : ∀ n, s.name ≠ temporaryName n) :
    (t.put s).Vacant := by
  intro n le
  rw [contains_put, or_iff_right (other n)]
  exact h n le

theorem Vacant.fresh {t : SymbolTable} (h : t.Vacant) : t.fresh.2.Vacant := by
  intro n le
  rw [allocated_fresh] at le
  have differs : temporaryName t.allocated ≠ temporaryName n := fun same =>
    Nat.ne_of_lt le (temporaryName_injective same)
  rw [contains_fresh, or_iff_right differs]
  exact h n (Nat.le_of_succ_le le)

end SymbolTable

end ThreeAddress
