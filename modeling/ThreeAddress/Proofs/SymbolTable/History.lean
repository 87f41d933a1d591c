import ThreeAddress.Proofs.SymbolTable
import ThreeAddress.Proofs.Token.Tiling
import Mathlib.Data.List.Induction

/-!
# Tables and their histories

A table is only ever asked for three things: to declare a symbol, to give one a value, and to find
a name for a temporary. Whatever it was asked for, and whether or not it refused, its symbols stand
in the order in which their names first came, and what it counts is what is there.

A request works on the table in place, so a refusal would keep what was changed before it; nothing
was. Each request is described by its effect on the list of symbols. What a whole history keeps follows
from what one request keeps, by induction on the history from its end.

## Main definitions

* `SymbolTable.Request`, with `SymbolTable.after` and `SymbolTable.afterAll` as the tables that
  requests lead to.
* `SymbolTable.perform_declare`, `SymbolTable.perform_update` and `SymbolTable.perform_fresh`: to answer
  in place is to answer.
* `SymbolTable.introduced` lists the names that requests bring, again and again where they come
  again.
* `SymbolTable.Records` is what holds of a table and its history.
* `SymbolTable.invariant_afterAll` is the main result.
-/

namespace ThreeAddress

namespace SymbolTable

/-! ## Requests -/

/-- The table after a request, whether it was answered or refused. -/
def after (t : SymbolTable) (request : Request) : SymbolTable :=
  match perform request t with
  | .ok _ t' | .error _ t' => t'

/-- The table after requests one after another. -/
def afterAll (t : SymbolTable) (requests : List Request) : SymbolTable :=
  requests.foldl after t

/-- The names that requests bring to a table that has been asked for `allocated` temporaries. -/
def introduced (allocated : Nat) : List Request → List String
  | [] => []
  | .declare name _ _ _ :: later => name :: introduced allocated later
  | .update _ _ :: later => introduced allocated later
  | .fresh :: later => temporaryName allocated :: introduced (allocated + 1) later

/-- The table refuses to declare a name that it has, and to give a value to one that it lacks. -/
def Refuses (t : SymbolTable) : Request → Prop
  | .declare name _ _ _ => t.contains name
  | .update name _ => ¬t.contains name
  | .fresh => False

/-- The request declares no name that a temporary may have. -/
def Request.SparesTemporaries : Request → Prop
  | .declare name _ _ _ => ∀ n, name ≠ temporaryName n
  | .update _ _ | .fresh => True

variable {t t' : SymbolTable} {requests : List Request}

theorem afterAll_append (t : SymbolTable) (earlier later : List Request) :
    t.afterAll (earlier ++ later) = (t.afterAll earlier).afterAll later :=
  List.foldl_append

theorem introduced_append (allocated : Nat) (earlier later : List Request) :
    introduced allocated (earlier ++ later) =
      introduced allocated earlier ++ introduced (allocated + earlier.count .fresh) later := by
  induction earlier generalizing allocated with
  | nil => simp [introduced]
  | cons request rest ih =>
    cases request with
    | declare name kind value line => simp [introduced, ih]
    | update name value => simp [introduced, ih]
    | fresh => simp [introduced, ih, Nat.add_assoc, Nat.add_comm 1]

/-! ## Requests in place -/

theorem get_bind (next : SymbolTable → Action Symbol) (t : SymbolTable) : (get >>= next) t = next t t := rfl

theorem modify_bind (change : SymbolTable → SymbolTable) (next : Unit → Action Symbol) (t : SymbolTable) :
    (modify change >>= next) t = next () (change t) := rfl

/-- To declare a symbol in place is to declare it, but a refusal changes nothing. -/
theorem perform_declare (t : SymbolTable) (name : String) (kind : SymbolKind) (value : Option Int64)
    (line : Option Nat) :
    perform (.declare name kind value line) t =
      match t.declare (.new name kind value line) with
      | .ok t' => .ok (.new name kind value line) t'
      | .error fault => .error fault t := by
  by_cases known : t.contains name
  · rw [declare_of_contains (s := .new name kind value line) known]
    exact congrFun (if_pos known) t
  · rw [declare_of_new (s := .new name kind value line) known]
    exact congrFun (if_neg known) t

/-- To give a symbol a value in place, with its mark as the last, is to update it, but a refusal changes
nothing. -/
theorem perform_update (t : SymbolTable) (name : String) (value : Int64) :
    perform (.update name value) t =
      match t.get? name with
      | some s => .ok (s.assign value) { t with symbols := t.symbols.insert name (s.assign value) }
      | none => .error (.undeclared name) t := by
  rw [perform, get_bind]
  cases t.get? name with
  | none => rfl
  | some s =>
    have twice := t.symbols.insert_insert name { s with content := ⟨some value, s.isInitialized⟩ }
      (s.assign value)
    exact congrArg (fun symbols => EStateM.Result.ok (s.assign value) { t with symbols := symbols }) twice

/-- To ask for a temporary in place is to ask for it. -/
theorem perform_fresh (t : SymbolTable) : perform .fresh t = .ok t.fresh.1 t.fresh.2 := by
  rw [perform, get_bind, modify_bind, get_bind, fresh, get?, get?]
  dsimp only
  cases t.symbols.get? (temporaryName t.allocated) <;> rfl

/-- A request fails in place just if it is refused. -/
theorem perform_eq_error_iff (t : SymbolTable) (request : Request) :
    (∃ fault t', perform request t = .error fault t') ↔ t.Refuses request := by
  cases request with
  | declare name kind value line =>
    rw [perform_declare]
    by_cases known : t.contains name
    · rw [declare_of_contains (s := .new name kind value line) known]
      exact iff_of_true ⟨_, _, rfl⟩ known
    · rw [declare_of_new (s := .new name kind value line) known]
      refine iff_of_false ?_ known
      rintro ⟨_, _, ⟨⟩⟩
  | update name value =>
    rw [perform_update, Refuses, contains]
    cases t.get? name with
    | none => exact iff_of_true ⟨_, _, rfl⟩ Bool.false_ne_true
    | some s =>
      refine iff_of_false ?_ (not_not_intro rfl)
      rintro ⟨_, _, ⟨⟩⟩
  | fresh =>
    rw [perform_fresh]
    refine iff_of_false ?_ id
    rintro ⟨_, _, ⟨⟩⟩

/-! ## What one request does -/

/-- A request that is refused changes nothing. -/
theorem after_of_refuses {request : Request} (refused : t.Refuses request) : t.after request = t := by
  cases request with
  | declare name kind value line =>
    have known : t.contains (Symbol.new name kind value line).name := refused
    rw [after, perform_declare, declare_of_contains known]
  | update name value =>
    have absent : t.get? name = none := Option.not_isSome_iff_eq_none.mp refused
    rw [after, perform_update, absent]
  | fresh => exact refused.elim

theorem after_declare (t : SymbolTable) (name : String) (kind : SymbolKind) (value : Option Int64)
    (line : Option Nat) :
    t.after (.declare name kind value line) =
      if t.contains name then t else t.put (.new name kind value line) := by
  let s : Symbol := .new name kind value line
  by_cases known : t.contains name
  · rw [if_pos known]
    exact after_of_refuses known
  · rw [if_neg known]
    rw [after, perform_declare, declare_of_new (s := s) known]

theorem after_update (t : SymbolTable) (name : String) (value : Int64) :
    t.after (.update name value) = t ∨ t.update name value = .ok (t.after (.update name value)) := by
  by_cases known : t.contains name
  · obtain ⟨s, found⟩ := Option.isSome_iff_exists.mp known
    refine .inr ?_
    rw [after, perform_update, update, found]
  · exact .inl (after_of_refuses known)

theorem after_fresh (t : SymbolTable) : t.after .fresh = t.fresh.2 := by
  rw [after, perform_fresh]

/-! ## What a request keeps -/

theorem WellKept.after (h : t.WellKept) (request : Request) : (t.after request).WellKept := by
  cases request with
  | declare name kind value line =>
    rw [after_declare]
    split
    · exact h
    · exact h.put _
  | update name value =>
    rcases t.after_update name value with same | updated
    · rw [same]
      exact h
    · exact h.update updated
  | fresh =>
    rw [after_fresh]
    exact h.fresh

theorem Truthful.after (h : t.Truthful) (kept : t.WellKept) (request : Request) :
    (t.after request).Truthful := by
  cases request with
  | declare name kind value line =>
    rw [after_declare]
    split
    · exact h
    · exact h.put rfl
  | update name value =>
    rcases t.after_update name value with same | updated
    · rw [same]
      exact h
    · exact h.update kept updated
  | fresh =>
    rw [after_fresh]
    exact h.fresh

theorem allocated_after (t : SymbolTable) (request : Request) :
    (t.after request).allocated = t.allocated + [request].count .fresh := by
  cases request with
  | declare name kind value line =>
    rw [after_declare]
    split <;> rfl
  | update name value =>
    rcases t.after_update name value with same | updated
    · rw [same]
      rfl
    · exact allocated_update updated
  | fresh =>
    rw [after_fresh]
    exact allocated_fresh t

theorem keys_after_declare (t : SymbolTable) (name : String) (kind : SymbolKind)
    (value : Option Int64) (line : Option Nat) :
    (t.after (.declare name kind value line)).symbols.keys =
      if name ∈ t.symbols.keys then t.symbols.keys else t.symbols.keys ++ [name] := by
  rw [after_declare]
  by_cases known : t.contains name
  · rw [if_pos known, if_pos ((contains_eq_true_iff t name).mp known)]
  · rw [if_neg known]
    exact keys_put t _

theorem keys_after_update (t : SymbolTable) (name : String) (value : Int64) :
    (t.after (.update name value)).symbols.keys = t.symbols.keys := by
  rcases t.after_update name value with same | updated
  · rw [same]
  · exact keys_update updated

/-- What holds of a table that has come from the empty one by some requests. -/
structure Records (requests : List Request) (t : SymbolTable) : Prop where
  kept : t.WellKept
  truthful : t.Truthful
  keys_eq : t.symbols.keys = (introduced 0 requests).eraseDups
  allocated_eq : t.allocated = requests.count .fresh

/-- The order of the first appearances, when one more name comes. -/
theorem eraseDups_append_singleton (names : List String) (name : String) :
    (names ++ [name]).eraseDups =
      if name ∈ names.eraseDups then names.eraseDups else names.eraseDups ++ [name] := by
  rw [List.eraseDups_append]
  by_cases known : name ∈ names
  · simp [List.cons_removeAll, known]
  · simp [List.cons_removeAll, known, List.eraseDups_cons]

/-- One more request is recorded. -/
theorem Records.after (h : t.Records requests) (request : Request) :
    (t.after request).Records (requests ++ [request]) where
  kept := h.kept.after request
  truthful := h.truthful.after h.kept request
  keys_eq := by
    rw [introduced_append, Nat.zero_add, ← h.allocated_eq]
    cases request with
    | declare name kind value line =>
      rw [keys_after_declare, introduced, introduced, eraseDups_append_singleton, h.keys_eq]
    | update name value => rw [keys_after_update, introduced, introduced, List.append_nil, h.keys_eq]
    | fresh =>
      rw [after_fresh, keys_fresh, introduced, introduced, eraseDups_append_singleton, h.keys_eq]
  allocated_eq := by rw [allocated_after, h.allocated_eq, List.count_append]

/-- Every history is recorded. -/
theorem records_afterAll (requests : List Request) : (empty.afterAll requests).Records requests := by
  induction requests using List.reverseRecOn with
  | nil => exact ⟨wellKept_empty, truthful_empty, rfl, rfl⟩
  | append_singleton requests request ih =>
    rw [afterAll_append]
    exact ih.after request

/-! ## Counting -/

/-- What is counted over a list of symbols. -/
theorem foldl_count (n : Statistics) (symbols : List Symbol) :
    symbols.foldl Statistics.count n =
      ⟨n.total + symbols.length,
        n.userVariables + symbols.countP fun s => s.kind = .declared,
        n.temporaries + symbols.countP fun s => s.kind = .temporary,
        n.initializedVariables + symbols.countP fun s => s.kind = .declared ∧ s.isInitialized⟩ := by
  induction symbols generalizing n with
  | nil => rfl
  | cons s rest ih =>
    rw [List.foldl_cons, ih]
    cases kind : s.kind with
    | declared =>
      by_cases initialized : s.isInitialized <;>
        simp [Statistics.count, kind, initialized, Nat.add_assoc, Nat.add_comm 1]
    | temporary => simp [Statistics.count, kind, Nat.add_assoc, Nat.add_comm 1]

/-- A symbol is a variable or a temporary. -/
theorem countP_kind (symbols : List Symbol) :
    symbols.length = symbols.countP (fun s => s.kind = .declared) +
      symbols.countP fun s => s.kind = .temporary := by
  have others (s : Symbol) : decide (s.kind = .temporary) = decide ¬decide (s.kind = .declared) := by
    cases s.kind <;> rfl
  simp only [others]
  exact List.length_eq_countP_add_countP _

theorem Truthful.statistics_eq (h : t.Truthful) :
    t.statistics =
      ⟨t.size, t.toList.countP fun s => s.kind = .declared,
        t.toList.countP fun s => s.kind = .temporary,
        t.toList.countP fun s => s.kind = .declared ∧ s.value.isSome⟩ := by
  have valued : (t.toList.countP fun s => s.kind = .declared ∧ s.isInitialized) =
      t.toList.countP fun s => s.kind = .declared ∧ s.value.isSome := by
    refine List.countP_congr fun s member => ?_
    rw [h s member]
  rw [statistics, foldl_count, valued]
  simp [Statistics.zero, size]

/-! ## Where no declaration takes the name of a temporary -/

theorem Vacant.after (h : t.Vacant) {request : Request} (spares : request.SparesTemporaries) :
    (t.after request).Vacant := by
  cases request with
  | declare name kind value line =>
    rw [after_declare]
    split
    · exact h
    · exact h.put spares
  | update name value =>
    have allocated : (t.after (.update name value)).allocated = t.allocated := allocated_after t _
    intro n le
    rw [contains_eq_true_iff, keys_after_update, ← contains_eq_true_iff]
    exact h n (allocated ▸ le)
  | fresh =>
    rw [after_fresh]
    exact h.fresh

/-- Where no declaration took the name of a temporary, the temporaries to come are new. -/
theorem vacant_afterAll (spares : ∀ request ∈ requests, request.SparesTemporaries) :
    (empty.afterAll requests).Vacant := by
  induction requests using List.reverseRecOn with
  | nil => exact vacant_empty
  | append_singleton requests request ih =>
    obtain ⟨earlier, here⟩ := List.forall_mem_append.mp spares
    rw [afterAll_append]
    exact (ih earlier).after (here request (List.mem_singleton_self _))

/-! ## The invariant -/

/-- The answers of a table, with what becomes of its symbols: a declaration puts a new symbol behind
the others, an update changes the one symbol of its name, and a refusal is a failure that changes
nothing. -/
structure Responds (t : SymbolTable) : Prop where
  fails : ∀ request, (∃ fault t', perform request t = .error fault t') ↔ t.Refuses request
  refused : ∀ request, t.Refuses request → t.after request = t
  declare_known : ∀ name kind value line, t.contains name →
    t.declare (.new name kind value line) = .error (.redeclared name line)
  declare_new : ∀ name kind value line, ¬t.contains name →
    ∃ t', t.declare (.new name kind value line) = .ok t' ∧ t'.allocated = t.allocated ∧
      t'.toList = t.toList ++ [.new name kind value line]
  update_unknown : ∀ name value, ¬t.contains name → t.update name value = .error (.undeclared name)
  update_known : ∀ name value, t.contains name →
    ∃ t', t.update name value = .ok t' ∧ t'.allocated = t.allocated ∧
      t'.toList = t.toList.map fun s => if s.name = name then s.assign value else s
  fresh_known : t.contains (temporaryName t.allocated) →
    t.get? (temporaryName t.allocated) = some t.fresh.1 ∧ t.fresh.2.toList = t.toList
  fresh_new : ¬t.contains (temporaryName t.allocated) →
    t.fresh.1 = .new (temporaryName t.allocated) .temporary none none ∧
      t.fresh.2.toList = t.toList ++ [t.fresh.1]

theorem fst_fresh_of_new (new : ¬t.contains (temporaryName t.allocated)) :
    t.fresh.1 = .new (temporaryName t.allocated) .temporary none none := by
  have absent : t.get? (temporaryName t.allocated) = none := by simpa [contains] using new
  simp only [fresh, absent]

theorem get?_of_fresh_known (known : t.contains (temporaryName t.allocated)) :
    t.get? (temporaryName t.allocated) = some t.fresh.1 := by
  obtain ⟨s, found⟩ := Option.isSome_iff_exists.mp known
  simp only [fresh, found]

theorem WellKept.responds (h : t.WellKept) : t.Responds where
  fails := perform_eq_error_iff t
  refused _ refused := after_of_refuses refused
  declare_known _ _ _ _ known := declare_of_contains known
  declare_new _ _ _ _ new := ⟨_, declare_of_new new, rfl, toList_put new⟩
  update_unknown _ value new := update_of_new new value
  update_known name value known := by
    obtain ⟨t', updated⟩ := exists_update_of_contains known value
    exact ⟨t', updated, allocated_update updated, h.toList_update updated⟩
  fresh_known known := ⟨get?_of_fresh_known known, toList_fresh_of_known known⟩
  fresh_new new := by
    refine ⟨fst_fresh_of_new new, ?_⟩
    rw [fst_fresh_of_new new]
    exact toList_fresh_of_new new

/-- What holds of a table whatever it was asked for. Its names are distinct and stand in the order in
which they first came, each with its own symbol; the symbols that have a value are the initialized
ones; what it refuses leaves it as it was; and its statistics count what is there. If no declaration
took the name of a temporary, as no name of a source does, then the next temporary is a new symbol,
and its number tells how many came before it. -/
theorem invariant_afterAll (requests : List Request) :
    let t := empty.afterAll requests
    t.Records requests ∧ t.Responds ∧
      t.toList.map Symbol.name = (introduced 0 requests).eraseDups ∧
      t.statistics =
        ⟨t.size, t.toList.countP fun s => s.kind = .declared,
          t.toList.countP fun s => s.kind = .temporary,
          t.toList.countP fun s => s.kind = .declared ∧ s.value.isSome⟩ ∧
      t.statistics.total = t.statistics.userVariables + t.statistics.temporaries ∧
      ((∀ request ∈ requests, request.SparesTemporaries) →
        ¬t.contains (temporaryName (requests.count .fresh)) ∧
          t.fresh.1 = .new (temporaryName (requests.count .fresh)) .temporary none none ∧
          t.fresh.2.toList = t.toList ++ [t.fresh.1]) ∧
      ∀ (source : Source) (tokens : List Token), source.tokenize = .ok tokens →
        ∀ token ∈ tokens, token.kind = .identifier →
          ∀ kind value line, (Request.declare token.text kind value line).SparesTemporaries := by
  intro t
  have records : t.Records requests := records_afterAll requests
  have responds := records.kept.responds
  have statistics := records.truthful.statistics_eq
  refine ⟨records, responds, ?_, statistics, ?_, ?_, ?_⟩
  · rw [records.kept.map_name_toList, records.keys_eq]
  · rw [statistics]
    exact countP_kind t.toList
  · intro spares
    have new : ¬t.contains (temporaryName (requests.count .fresh)) :=
      vacant_afterAll spares _ (Nat.le_of_eq records.allocated_eq)
    refine ⟨new, ?_⟩
    rw [← records.allocated_eq] at new ⊢
    exact responds.fresh_new new
  · intro source tokens tokenized token member identifier kind value line
    obtain ⟨ts, rfl, texts⟩ := Source.exists_of_tokenize tokenized
    rcases List.mem_append.mp member with listed | last
    · have text := texts token listed
      rw [identifier] at text
      refine isIdentifier_ne_temporaryName ?_
      simpa using text.1
    · cases List.mem_singleton.mp last
      cases identifier

/-- A variable that is declared twice, and temporaries around an update. -/
theorem invariant_afterAll_twice :
    let requests : List Request :=
      [.declare "a" .declared none (some 1), .fresh, .update "a" 5, .declare "a" .temporary none none,
        .update "b" 1, .fresh]
    let t := empty.afterAll requests
    (∀ request ∈ requests, request.SparesTemporaries) ∧
      t.toList.map Symbol.name = ["a", "%t0", "%t1"] ∧ t.statistics = ⟨3, 1, 2, 1⟩ ∧
      t.fresh.1 = .new "%t2" .temporary none none := by
  intro requests t
  have spares : ∀ request ∈ requests, request.SparesTemporaries := by
    have a : isIdentifier "a" := by decide
    simp [requests, Request.SparesTemporaries, isIdentifier_ne_temporaryName a]
  obtain ⟨-, -, names, statistics, -, next, -⟩ := invariant_afterAll requests
  have third : temporaryName (requests.count .fresh) = "%t2" := by decide +kernel
  refine ⟨spares, names.trans (by decide +kernel), statistics.trans (by decide +kernel), ?_⟩
  rw [← third]
  exact (next spares).2.1

end SymbolTable

end ThreeAddress
