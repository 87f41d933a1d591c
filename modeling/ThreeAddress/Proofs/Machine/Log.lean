import ThreeAddress.Machine.Log
import ThreeAddress.Proofs.Machine.Effect
import Mathlib.Data.List.Basic

/-!
# The words of the variables in the log

A machine tells the words of its variables behind each assignment to one of them, and nowhere else. If
assignments go to variables and all other instructions leave those alone, then the log tells of every
change: at any time the words are those that were told last.

## Main definitions

* `Event.TellsWords` picks the events that tell the words of the variables, by what is seen of an event,
  and `Event.Shows` says which words an event tells.
* `Machine.trace` are the executed instructions, each with the state after it.
* `Machine.Separated`: assignments go to variables, and no other instruction stores under one.
* `Machine.Separated.filter_runLog`: one event for each executed assignment.
* `Machine.Separated.words_of_quiet`: where nothing is told, nothing changes.
-/

namespace ThreeAddress

/-! ## Events -/

namespace Event

/-- The event is one of those that tell the words of the variables. -/
def TellsWords (e : Event) : Prop :=
  e.level = .debug ∧ e.target = "eval" ∧ "state: [".toList <+: e.message.toList

instance : DecidablePred TellsWords := fun e =>
  inferInstanceAs (Decidable (e.level = .debug ∧ e.target = "eval" ∧ "state: [".toList <+: e.message.toList))

/-- The event tells the words, each with its name, in their order. -/
structure Shows (e : Event) (words : List (String × Int64)) : Prop where
  level : e.level = .debug
  target : e.target = "eval"
  message : e.message = "state: [" ++
    ", ".intercalate (words.map fun entry => entry.1 ++ "=" ++ Decimal.ofWord entry.2) ++ "]"

theorem shows_userState (words : List (String × Int64)) : (userState words).Shows words :=
  ⟨rfl, rfl, rfl⟩

theorem tellsWords_userState (words : List (String × Int64)) : (userState words).TellsWords := by
  have text : (userState words).message =
      "state: [" ++ (", ".intercalate (words.map renderWord) ++ "]") := String.append_assoc
  have begins : "state: [".toList <+: (userState words).message.toList := by
    rw [text, String.toList_append]
    exact List.prefix_append _ _
  exact ⟨rfl, rfl, begins⟩

theorem not_tellsWords_halted (steps : Nat) : ¬(halted steps).TellsWords := by
  rintro ⟨-, -, begins⟩
  have text : (halted steps).message = "halted after " ++ (Decimal.ofNat steps ++ " steps") :=
    String.append_assoc
  rw [text, String.toList_append] at begins
  have shorter : "state: [".toList.length ≤ "halted after ".toList.length := by decide
  have impossible : ¬"state: [".toList <+: "halted after ".toList := by decide
  exact impossible (List.prefix_of_prefix_length_le begins (List.prefix_append _ _) shorter)

/-- Only one kind of event tells the words. -/
theorem tellsWords_iff {e : Event} : e.TellsWords ↔ ∃ words, e = .userState words := by
  constructor
  · intro tells
    cases e with
    | userState words => exact ⟨words, rfl⟩
    | halted steps => exact absurd tells (not_tellsWords_halted steps)
    | executing | instruction => cases tells.1
    | _ => simp [TellsWords, target] at tells
  · rintro ⟨words, rfl⟩
    exact tellsWords_userState words

theorem filter_eq_nil {log : List Event} (quiet : ∀ words, .userState words ∉ log) :
    log.filter TellsWords = [] := by
  rw [List.filter_eq_nil_iff]
  intro e mem tells
  obtain ⟨words, rfl⟩ := tellsWords_iff.mp (of_decide_eq_true tells)
  exact quiet words mem

end Event

/-- Tells the assignments. -/
def Instruction.isAssign : Instruction → Bool
  | .assign .. => true
  | .binary .. | .label _ | .goto _ | .ifFalse .. | .ifTrue .. => false

namespace Machine

/-- The instructions that are executed, at most `fuel` of them, each with the state after it. -/
def trace (m : Machine) : Nat → State → List (Instruction × State)
  | 0, _ => []
  | fuel + 1, s =>
    match m.code[s.pc]? with
    | none => []
    | some instruction =>
      match m.step s with
      | .ok s' => (instruction, s') :: m.trace fuel s'
      | .error _ => []

/-- Assignments go to variables, and no other instruction stores under the name of a variable. -/
structure Separated (m : Machine) : Prop where
  assigned : ∀ (pc : Nat) (result : String) (value : Operand),
    m.code[pc]? = some (.assign result value) → result ∈ m.userVariables
  others : ∀ (pc : Nat) (i : Instruction), m.code[pc]? = some i → i.isAssign = false →
    ∀ name ∈ m.userVariables, i.result? ≠ some name

variable {m : Machine} {s s' : State} {n fuel : Nat} {i : Instruction}

/-! ## Steps -/

/-- A step leaves the store alone but for the result of its instruction. -/
theorem get?_of_step (fetch : m.code[s.pc]? = some i) (step : m.step s = .ok s') {name : String}
    (other : i.result? ≠ some name) : s'.store.get? name = s.store.get? name := by
  simp only [Machine.step, fetch, execute_eq_map_effect] at step
  cases effect : m.effect (fun operand => operand.resolve s.store) s.pc i with
  | error fault => simp [effect, Except.map] at step
  | ok e =>
    simp only [effect, Except.map, Except.ok.injEq] at step
    subst step
    rcases effect_eq_ok effect with ⟨result, word, writes, rfl⟩ | ⟨-, rfl | ⟨l, place, -, rfl⟩⟩
    · have differs : result ≠ name := fun same => other (same ▸ writes)
      simp [State.applying, State.storing, OrderedMap.get?_insert, differs]
    · rfl
    · rfl

/-- Variables keep their words where no assignment is executed. -/
theorem Separated.get?_of_step (h : m.Separated) (fetch : m.code[s.pc]? = some i)
    (step : m.step s = .ok s') (other : i.isAssign = false) {name : String}
    (variable' : name ∈ m.userVariables) : s'.store.get? name = s.store.get? name :=
  Machine.get?_of_step fetch step (h.others _ _ fetch other name variable')

/-- An executed assignment tells the words of the variables once, and no other instruction does. -/
theorem Separated.filter_stepLog (h : m.Separated) (fetch : m.code[s.pc]? = some i)
    (step : m.step s = .ok s') :
    (m.stepLog s).filter Event.TellsWords =
      if i.isAssign then [.userState (m.variableWords s'.store)] else [] := by
  have quiet : ¬(Event.instruction s.pc i).TellsWords := nofun
  simp only [stepLog, fetch, step]
  cases i with
  | assign result value =>
    simp [assignmentLog, h.assigned _ _ _ fetch, quiet, Event.tellsWords_userState, Instruction.isAssign]
  | _ => simp [assignmentLog, quiet, Instruction.isAssign]

/-- A step that fails tells no words. -/
theorem filter_stepLog_of_failure {failure : RunFailure} (fails : m.step s = .error failure) :
    (m.stepLog s).filter Event.TellsWords = [] := by
  rw [stepLog]
  cases fetch : m.code[s.pc]? with
  | none => rfl
  | some i =>
    have quiet : ¬(Event.instruction s.pc i).TellsWords := nofun
    simp [fails, quiet]

/-! ## Runs -/

theorem runLog_of_halted (halted : m.status s = .halted) (fuel : Nat) :
    m.runLog fuel s = [.halted s.steps] := by
  cases fuel <;> rw [runLog, if_pos halted]

theorem runLog_succ_of_step (inside : s.pc < m.code.size) (step : m.step s = .ok s') (fuel : Nat) :
    m.runLog (fuel + 1) s = m.stepLog s ++ m.runLog fuel s' := by
  have running : m.status s ≠ .halted := by simp [status, inside]
  rw [runLog, if_neg running, step]

theorem runLog_succ_of_failure {failure : RunFailure} (inside : s.pc < m.code.size)
    (fails : m.step s = .error failure) (fuel : Nat) : m.runLog (fuel + 1) s = m.stepLog s := by
  have running : m.status s ≠ .halted := by simp [status, inside]
  rw [runLog, if_neg running, fails]

theorem filter_runLog_of_halted (halted : m.status s = .halted) (fuel : Nat) :
    (m.runLog fuel s).filter Event.TellsWords = [] := by
  rw [runLog_of_halted halted, List.filter_singleton, decide_eq_false (Event.not_tellsWords_halted _)]
  rfl

/-- The machine comes to each state of the trace. -/
theorem exists_reaches_of_mem_trace {entry : Instruction × State} (mem : entry ∈ m.trace fuel s) :
    ∃ n, m.Reaches s n entry.2 := by
  induction fuel generalizing s with
  | zero => cases mem
  | succ fuel ih =>
    rw [trace] at mem
    cases fetch : m.code[s.pc]? with
    | none => simp [fetch] at mem
    | some i =>
      have inside : s.pc < m.code.size := (Array.getElem?_eq_some_iff.mp fetch).1
      cases step : m.step s with
      | error failure => simp [fetch, step] at mem
      | ok next =>
        simp only [fetch, step, List.mem_cons] at mem
        rcases mem with rfl | later
        · exact ⟨1, .single inside step⟩
        · obtain ⟨n, run⟩ := ih later
          exact ⟨n + 1, .head inside step run⟩

/-- The log of a run tells the words of the variables as they are behind each executed assignment, one
after another. -/
theorem Separated.filter_runLog (h : m.Separated) (fuel : Nat) (s : State) :
    (m.runLog fuel s).filter Event.TellsWords =
      ((m.trace fuel s).filter fun entry => entry.1.isAssign).map fun entry =>
        .userState (m.variableWords entry.2.store) := by
  induction fuel generalizing s with
  | zero =>
    by_cases inside : s.pc < m.code.size
    · have running : m.status s ≠ .halted := by simp [status, inside]
      rw [runLog, if_neg running]
      rfl
    · exact filter_runLog_of_halted (status_eq_halted_iff.mpr (by omega)) 0
  | succ fuel ih =>
    by_cases inside : s.pc < m.code.size
    · have fetch : m.code[s.pc]? = some m.code[s.pc] := Array.getElem?_eq_getElem inside
      cases step : m.step s with
      | error failure =>
        rw [runLog_succ_of_failure inside step, filter_stepLog_of_failure step]
        simp [trace, fetch, step]
      | ok s' =>
        rw [runLog_succ_of_step inside step, List.filter_append, h.filter_stepLog fetch step, ih]
        cases assigns : m.code[s.pc].isAssign <;> simp [trace, fetch, step, assigns]
    · have fetch : m.code[s.pc]? = none := Array.getElem?_eq_none (by omega)
      rw [filter_runLog_of_halted (status_eq_halted_iff.mpr (by omega))]
      simp [trace, fetch]

/-- Where a run tells no words, the variables keep theirs. -/
theorem Separated.words_of_quiet (h : m.Separated) (run : m.Reaches s n s') (fuel : Nat)
    (quiet : (m.runLog (n + fuel) s).filter Event.TellsWords = []) {name : String}
    (variable' : name ∈ m.userVariables) : s'.store.get? name = s.store.get? name := by
  induction run with
  | refl => rfl
  | @head s middle s' n inside step _ ih =>
    have fetch : m.code[s.pc]? = some m.code[s.pc] := Array.getElem?_eq_getElem inside
    rw [Nat.add_right_comm, runLog_succ_of_step inside step, List.filter_append,
      h.filter_stepLog fetch step, List.append_eq_nil_iff] at quiet
    have other : m.code[s.pc].isAssign = false := by
      by_contra assigns
      simp [assigns] at quiet
    rw [ih quiet.2, h.get?_of_step fetch step other variable']

/-- When a run has come to its end, the words that were told last are those that are left. -/
theorem Separated.last_of_halted (h : m.Separated) (run : m.Reaches s n s')
    (halted : m.code.size ≤ s'.pc) (fuel : Nat) {e : Event}
    (last : ((m.runLog (n + fuel) s).filter Event.TellsWords).getLast? = some e) :
    e = .userState (m.variableWords s'.store) := by
  induction run with
  | refl s =>
    rw [filter_runLog_of_halted (status_eq_halted_iff.mpr halted)] at last
    cases last
  | @head s middle s' n inside step rest ih =>
    have fetch : m.code[s.pc]? = some m.code[s.pc] := Array.getElem?_eq_getElem inside
    rw [Nat.add_right_comm, runLog_succ_of_step inside step, List.filter_append,
      h.filter_stepLog fetch step, List.getLast?_append] at last
    cases later : ((m.runLog (n + fuel) middle).filter Event.TellsWords).getLast? with
    | some e' =>
      rw [later] at last
      cases last
      exact ih halted later
    | none =>
      -- nothing is told behind this step, so the words that it leaves are the last ones
      have quiet := List.getLast?_eq_none_iff.mp later
      have same : m.variableWords s'.store = m.variableWords middle.store :=
        List.filterMap_congr fun name mem => by rw [h.words_of_quiet rest fuel quiet mem]
      rw [later] at last
      cases assigns : m.code[s.pc].isAssign with
      | true => simpa [assigns, same, eq_comm] using last
      | false => simp [assigns] at last

end Machine

end ThreeAddress
