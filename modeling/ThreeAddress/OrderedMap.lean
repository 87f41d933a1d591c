/-!
# Maps in order of insertion

A map that remembers the order in which its keys first came. A new value for a known key takes the
place of the old one and moves nothing.

## Main definitions

* `OrderedMap` with `get?`, `insert` and `keys`.

An insertion is described by its effect on both views, `get?_insert` and `keys_insert`.
-/

namespace ThreeAddress

/-- Keys with their values, in the order in which the keys came. -/
structure OrderedMap (κ α : Type) where
  entries : List (κ × α)

namespace OrderedMap

variable {κ α : Type} [DecidableEq κ]

/-- The map without keys. -/
def empty : OrderedMap κ α :=
  ⟨[]⟩

/-- The value of the first entry for `key`. -/
def lookup? (key : κ) : List (κ × α) → Option α
  | [] => none
  | (k, a) :: rest => if k = key then some a else lookup? key rest

/-- The entries with `a` as the value of `key`. -/
def put (key : κ) (a : α) : List (κ × α) → List (κ × α)
  | [] => [(key, a)]
  | (k, b) :: rest => if k = key then (k, a) :: rest else (k, b) :: put key a rest

/-- The value of a key. -/
def get? (m : OrderedMap κ α) (key : κ) : Option α :=
  lookup? key m.entries

/-- The map with a new value for a key; a new key comes last. -/
def insert (m : OrderedMap κ α) (key : κ) (a : α) : OrderedMap κ α :=
  ⟨put key a m.entries⟩

/-- The keys, in the order in which they came. -/
def keys (m : OrderedMap κ α) : List κ :=
  m.entries.map Prod.fst

/-- The map after inserting the entries one after another. -/
def ofList (entries : List (κ × α)) : OrderedMap κ α :=
  entries.foldl (fun m entry => m.insert entry.1 entry.2) empty

theorem lookup?_put (key other : κ) (a : α) (entries : List (κ × α)) :
    lookup? other (put key a entries) = if key = other then some a else lookup? other entries := by
  induction entries with
  | nil => simp [put, lookup?]
  | cons entry rest ih =>
    obtain ⟨k, b⟩ := entry
    by_cases hk : k = key
    · subst hk
      by_cases ho : k = other <;> simp [put, lookup?, ho]
    · by_cases ho : k = other
      · subst ho
        simp [put, lookup?, hk, Ne.symm hk]
      · simp [put, lookup?, hk, ho, ih]

theorem lookup?_isSome (key : κ) (entries : List (κ × α)) :
    (lookup? key entries).isSome ↔ key ∈ entries.map Prod.fst := by
  induction entries with
  | nil => simp [lookup?]
  | cons entry rest ih =>
    obtain ⟨k, b⟩ := entry
    by_cases hk : k = key
    · simp [lookup?, hk]
    · simp [lookup?, hk, ih, Ne.symm hk]

theorem map_fst_put (key : κ) (a : α) (entries : List (κ × α)) :
    (put key a entries).map Prod.fst =
      if key ∈ entries.map Prod.fst then entries.map Prod.fst else entries.map Prod.fst ++ [key] := by
  induction entries with
  | nil => simp [put]
  | cons entry rest ih =>
    obtain ⟨k, b⟩ := entry
    by_cases hk : k = key
    · simp [put, hk]
    · simp only [put, hk, if_false, List.map_cons, ih, List.mem_cons, Ne.symm hk, false_or]
      split <;> simp

@[simp] theorem get?_empty (key : κ) : (empty : OrderedMap κ α).get? key = none := rfl

/-- The keys are the names that have a value. -/
theorem mem_keys_iff (m : OrderedMap κ α) (key : κ) : key ∈ m.keys ↔ (m.get? key).isSome :=
  (lookup?_isSome key m.entries).symm

/-- A known key stays in its place, and a new one comes last. -/
theorem keys_insert (m : OrderedMap κ α) (key : κ) (a : α) :
    (m.insert key a).keys = if key ∈ m.keys then m.keys else m.keys ++ [key] :=
  map_fst_put key a m.entries

theorem put_put (key : κ) (a b : α) (entries : List (κ × α)) :
    put key b (put key a entries) = put key b entries := by
  induction entries with
  | nil => simp [put]
  | cons entry rest ih =>
    obtain ⟨k, c⟩ := entry
    by_cases hk : k = key
    · simp [put, hk]
    · simp [put, hk, ih]

/-- The last value that is inserted under a key is the one that stays. -/
theorem insert_insert (m : OrderedMap κ α) (key : κ) (a b : α) :
    (m.insert key a).insert key b = m.insert key b :=
  congrArg OrderedMap.mk (put_put key a b m.entries)

/-- Inserting gives the key its new value and leaves the others alone. -/
@[simp] theorem get?_insert (m : OrderedMap κ α) (key other : κ) (a : α) :
    (m.insert key a).get? other = if key = other then some a else m.get? other :=
  lookup?_put key other a m.entries

theorem mem_of_lookup? {key : κ} {a : α} {entries : List (κ × α)}
    (h : lookup? key entries = some a) : (key, a) ∈ entries := by
  induction entries with
  | nil => simp [lookup?] at h
  | cons entry rest ih =>
    obtain ⟨k, b⟩ := entry
    by_cases hk : k = key
    · simp_all [lookup?]
    · simp only [lookup?, hk, if_false] at h
      exact List.mem_cons_of_mem _ (ih h)

/-- Where no key comes twice, a look-up finds every entry. -/
theorem lookup?_eq_some_iff {key : κ} {a : α} {entries : List (κ × α)}
    (distinct : (entries.map Prod.fst).Nodup) :
    lookup? key entries = some a ↔ (key, a) ∈ entries := by
  refine ⟨mem_of_lookup?, fun h => ?_⟩
  induction entries with
  | nil => simp at h
  | cons entry rest ih =>
    obtain ⟨k, b⟩ := entry
    rw [List.map_cons, List.nodup_cons] at distinct
    rcases List.mem_cons.mp h with here | later
    · cases here
      simp [lookup?]
    · have hk : k ≠ key := by
        rintro rfl
        exact distinct.1 (List.mem_map.mpr ⟨_, later, rfl⟩)
      simp only [lookup?, hk, if_false]
      exact ih distinct.2 later

theorem mem_put {key : κ} {a : α} {entries : List (κ × α)} {entry : κ × α}
    (h : entry ∈ put key a entries) : entry = (key, a) ∨ entry ∈ entries := by
  induction entries with
  | nil => simp_all [put]
  | cons first rest ih =>
    obtain ⟨k, b⟩ := first
    by_cases hk : k = key
    · simp only [put, hk, if_true, List.mem_cons] at h
      exact h.imp_right (List.mem_cons_of_mem _)
    · simp only [put, hk, if_false, List.mem_cons] at h ⊢
      rcases h with here | later
      · exact .inr (.inl here)
      · exact (ih later).imp_right .inr

theorem put_of_notMem {key : κ} {a : α} {entries : List (κ × α)}
    (h : key ∉ entries.map Prod.fst) : put key a entries = entries ++ [(key, a)] := by
  induction entries with
  | nil => rfl
  | cons entry rest ih =>
    obtain ⟨k, b⟩ := entry
    simp only [List.map_cons, List.mem_cons, not_or] at h
    simp [put, Ne.symm h.1, ih h.2]

/-- Where no key comes twice, a new value for a known key changes the one entry of that key. -/
theorem put_eq_map {key : κ} {a : α} {entries : List (κ × α)} (f : α → α)
    (distinct : (entries.map Prod.fst).Nodup) (known : lookup? key entries = some a) :
    put key (f a) entries =
      entries.map fun entry => if entry.1 = key then (entry.1, f entry.2) else entry := by
  induction entries with
  | nil => simp [lookup?] at known
  | cons entry rest ih =>
    obtain ⟨k, b⟩ := entry
    rw [List.map_cons, List.nodup_cons] at distinct
    by_cases hk : k = key
    · subst hk
      have others : ∀ entry ∈ rest,
          (if entry.1 = k then (entry.1, f entry.2) else entry) = id entry := by
        intro entry mem
        refine if_neg ?_
        rintro rfl
        exact distinct.1 (List.mem_map.mpr ⟨entry, mem, rfl⟩)
      simp only [lookup?, if_true, Option.some_inj] at known
      rw [put, if_pos rfl, List.map_cons, if_pos rfl, List.map_congr_left others, List.map_id, known]
    · simp only [lookup?, hk, if_false] at known
      simp [put, hk, ih distinct.2 known]

theorem foldl_insert_of_nodup (m : OrderedMap κ α) (entries : List (κ × α))
    (distinct : ((m.entries ++ entries).map Prod.fst).Nodup) :
    (entries.foldl (fun m entry => m.insert entry.1 entry.2) m).entries = m.entries ++ entries := by
  induction entries generalizing m with
  | nil => simp
  | cons entry rest ih =>
    have fresh : entry.1 ∉ m.entries.map Prod.fst := by
      intro known
      simp only [List.map_append, List.map_cons, List.nodup_append] at distinct
      exact distinct.2.2 _ known _ (List.mem_cons_self ..) rfl
    have here : (m.insert entry.1 entry.2).entries = m.entries ++ [entry] := put_of_notMem fresh
    rw [List.foldl_cons, ih, here]
    · simp
    · simpa [here] using distinct

/-- Entries with distinct keys are inserted as they are. -/
theorem entries_ofList {entries : List (κ × α)} (distinct : (entries.map Prod.fst).Nodup) :
    (ofList entries).entries = entries := by
  simpa [ofList, empty] using foldl_insert_of_nodup empty entries (by simpa [empty] using distinct)

/-- The keys of a map from a list are those of its entries, also where one comes twice. -/
theorem mem_keys_ofList {entries : List (κ × α)} {key : κ} :
    key ∈ (ofList entries).keys ↔ key ∈ entries.map Prod.fst := by
  have goesOn : ∀ m : OrderedMap κ α,
      key ∈ (entries.foldl (fun m entry => m.insert entry.1 entry.2) m).keys ↔
        key ∈ m.keys ∨ key ∈ entries.map Prod.fst := by
    induction entries with
    | nil => simp
    | cons entry rest ih =>
      intro m
      rw [List.foldl_cons, ih, keys_insert, List.map_cons, List.mem_cons, ← or_assoc]
      refine or_congr_left ?_
      split
      next known => exact ⟨.inl, fun h => h.elim id (· ▸ known)⟩
      next => simp
  simpa [ofList, empty, keys] using goesOn empty

/-- Of several entries with one key, the last one counts. -/
theorem get?_ofList_append_singleton (entries : List (κ × α)) (key other : κ) (a : α) :
    (ofList (entries ++ [(key, a)])).get? other =
      if key = other then some a else (ofList entries).get? other := by
  simp [ofList]

theorem get?_ofList {entries : List (κ × α)} (distinct : (entries.map Prod.fst).Nodup) {key : κ}
    {a : α} : (ofList entries).get? key = some a ↔ (key, a) ∈ entries := by
  rw [get?, entries_ofList distinct, lookup?_eq_some_iff distinct]

/-! ## Changing all values -/

/-- The map with `f` applied to its values. -/
def mapValues {β : Type} (f : α → β) (m : OrderedMap κ α) : OrderedMap κ β :=
  ⟨m.entries.map fun entry => (entry.1, f entry.2)⟩

section

variable {β : Type} (f : α → β) (m : OrderedMap κ α) (key : κ) (a : α)

@[simp] theorem get?_mapValues : (m.mapValues f).get? key = (m.get? key).map f := by
  rw [get?, get?, mapValues]
  induction m.entries with
  | nil => rfl
  | cons entry rest ih =>
    by_cases here : entry.1 = key
    · simp [lookup?, here]
    · simpa [lookup?, here] using ih

@[simp] theorem mapValues_insert : (m.insert key a).mapValues f = (m.mapValues f).insert key (f a) := by
  rw [insert, insert, mapValues, mapValues]
  congr 1
  induction m.entries with
  | nil => rfl
  | cons entry rest ih =>
    by_cases here : entry.1 = key
    · simp [put, here]
    · simpa [put, here] using ih

end

end OrderedMap

end ThreeAddress
