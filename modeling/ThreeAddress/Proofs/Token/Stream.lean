import ThreeAddress.Proofs.Token.Place

/-!
# Three ways to read a source

A source is read in one go, by calls for one token after another, or as a stream. All three are told
by the scan from the cursor: the calls return its tokens and then the end or the failure, a stream
yields the same and has ended then, and what is left after some calls is the scan without its first
tokens.

## Main definitions

* `Cursor.after` is a cursor after some calls for the next token.
* `TokenStream.Yields` says what a stream yields, for all calls together.
* `Source.pull_agrees` is the main result.
-/

namespace ThreeAddress

namespace Cursor

variable {c c' : Cursor} {error : Diagnostic LexFault}

/-- The cursor after `n` calls for the next token, whatever they came to. -/
def after (c : Cursor) (n : Nat) : Cursor :=
  (fun c => c.next.2)^[n] c

theorem after_succ (c : Cursor) (n : Nat) : c.after (n + 1) = c.next.2.after n := rfl

theorem after_add (c : Cursor) (m n : Nat) : c.after (m + n) = (c.after m).after n := by
  rw [after, Nat.add_comm, Function.iterate_add_apply]
  rfl

/-! ## Calls one after another -/

/-- Where the end has been found, it is found again. -/
theorem next_of_end (h : c.next = (.ok none, c')) : c'.next = (.ok none, c') := by
  have left : c'.rest = [] := by
    simp only [next] at h
    split at h
    next => cases h
    next nil => cases h; exact nil
    next => cases h
  have solid : c'.skipTrivia = c' := skipTrivia_of_solid (by rw [left]; rfl)
  rw [next_of_rest_nil (solid.symm ▸ left), solid]

theorem next_after_of_end (h : c.next = (.ok none, c')) (n : Nat) : (c.after n).next.1 = .ok none := by
  induction n generalizing c with
  | zero => exact congrArg Prod.fst h
  | succ n ih =>
    rw [after_succ, h]
    exact ih (next_of_end h)

/-- Where the scan comes to the end, the calls return its tokens, and then always the end. -/
theorem next_after_of_scan_ok {last : Cursor} (h : c.scan.2 = .ok last) (n : Nat) :
    (c.after n).next.1 = .ok c.scan.1[n]? := by
  fun_induction scan c generalizing n with
  | case1 c t c' found later ih =>
    cases n with
    | zero => exact congrArg Prod.fst found
    | succ n =>
      rw [after_succ, found]
      exact ih h n
  | case2 c c' found => exact next_after_of_end found n
  | case3 => cases h

/-- Where the scan fails, the calls return its tokens, and then the failure. -/
theorem next_after_of_scan_error (h : c.scan.2 = .error error) :
    (∀ n < c.scan.1.length, (c.after n).next.1 = .ok c.scan.1[n]?) ∧
      (c.after c.scan.1.length).next.1 = .error error := by
  fun_induction scan c with
  | case1 c t c' found later ih =>
    obtain ⟨earlier, last⟩ := ih h
    constructor
    · intro n lt
      cases n with
      | zero => exact congrArg Prod.fst found
      | succ n =>
        rw [after_succ, found]
        exact earlier n (Nat.lt_of_succ_lt_succ lt)
    · rw [List.length_cons, after_succ, found]
      exact last
  | case2 => cases h
  | case3 c e c' found =>
    cases h
    exact ⟨nofun, congrArg Prod.fst found⟩

theorem tokens_eq_ok_iff {tokens : List Token} :
    c.tokens = .ok tokens ↔ ∃ last, c.scan.2 = .ok last ∧ tokens = c.scan.1 ++ [last.endToken] := by
  simp only [Cursor.tokens]
  split
  next found => simp [found, eq_comm]
  next found => simp [found]

theorem tokens_eq_error_iff : c.tokens = .error error ↔ c.scan.2 = .error error := by
  simp only [tokens]
  split <;> simp_all

/-- Behind some tokens the others are left. -/
theorem Yields.tokens_ok {ts tokens : List Token} (h : c.Yields ts c') (read : c.tokens = .ok tokens) :
    c'.tokens = .ok (tokens.drop ts.length) := by
  obtain ⟨last, ends, rfl⟩ := tokens_eq_ok_iff.mp read
  rw [Yields] at h
  rw [h] at ends
  refine tokens_eq_ok_iff.mpr ⟨last, ends, ?_⟩
  rw [h, List.append_assoc, List.drop_left]

/-- Behind some tokens the failure is the same. -/
theorem Yields.tokens_error {ts : List Token} (h : c.Yields ts c') (failed : c.tokens = .error error) :
    c'.tokens = .error error := by
  rw [tokens_eq_error_iff] at failed ⊢
  rw [← failed, h]

/-- A call that returns a token returns the one of its number. -/
theorem getElem?_tokens {tokens : List Token} (read : c.tokens = .ok tokens) {n : Nat} {t : Token}
    (call : (c.after n).next.1 = .ok (some t)) : tokens[n]? = some t := by
  obtain ⟨last, ends, rfl⟩ := tokens_eq_ok_iff.mp read
  rw [next_after_of_scan_ok ends] at call
  have found : c.scan.1[n]? = some t := Except.ok.inj call
  obtain ⟨inside, -⟩ := List.getElem?_eq_some_iff.mp found
  rw [List.getElem?_append_left inside, found]

/-- After calls that each returned a token, the scan has these tokens less. -/
theorem exists_yields_after {k : Nat} (pulled : ∀ j < k, ∃ t, (c.after j).next.1 = .ok (some t)) :
    ∃ ts, ts.length = k ∧ c.Yields ts (c.after k) := by
  induction k generalizing c with
  | zero => exact ⟨[], rfl, .refl c⟩
  | succ k ih =>
    obtain ⟨t, first⟩ := pulled 0 k.succ_pos
    obtain ⟨ts, length, yields⟩ := ih (c := c.next.2) fun j lt => pulled (j + 1) (Nat.succ_lt_succ lt)
    have here : c.Yields [t] c.next.2 := yields_of_next (Prod.ext first rfl)
    exact ⟨t :: ts, by rw [List.length_cons, length], here.trans yields⟩

/-- The scan fails just with the first failure that the calls come to. -/
theorem scan_eq_error_iff :
    c.scan.2 = .error error ↔
      ∃ n, (∀ j < n, ∀ e, (c.after j).next.1 ≠ .error e) ∧ (c.after n).next.1 = .error error := by
  cases scanned : c.scan.2 with
  | ok last =>
    refine iff_of_false nofun ?_
    rintro ⟨n, -, failed⟩
    rw [next_after_of_scan_ok scanned n] at failed
    cases failed
  | error failure =>
    obtain ⟨earlier, last⟩ := next_after_of_scan_error scanned
    constructor
    · rintro ⟨rfl⟩
      refine ⟨_, fun j lt e => ?_, last⟩
      rw [earlier j lt]
      exact nofun
    · rintro ⟨n, clean, failed⟩
      rcases Nat.lt_trichotomy n c.scan.1.length with lt | rfl | gt
      · rw [earlier n lt] at failed
        cases failed
      · exact Except.error.inj (last.symm.trans failed) ▸ rfl
      · exact absurd last (clean _ gt failure)

end Cursor

/-! ## Streams -/

namespace TokenStream

/-- The stream after `n` calls. -/
def after (s : TokenStream) (n : Nat) : TokenStream :=
  (fun s => s.next.2)^[n] s

/-- The calls yield the items one after another, and then nothing for ever. -/
def Yields (s : TokenStream) (items : List (Except (Diagnostic LexFault) Token)) : Prop :=
  ∀ n, (s.after n).next.1 = items[n]?

variable {s s' : TokenStream} {items : List (Except (Diagnostic LexFault) Token)}

theorem yields_cons {item : Except (Diagnostic LexFault) Token} (first : s.next = (some item, s'))
    (later : s'.Yields items) : s.Yields (item :: items) := by
  intro n
  cases n with
  | zero => exact congrArg Prod.fst first
  | succ n =>
    have goes : s.after (n + 1) = s'.after n := congrArg (fun next => next.2.after n) first
    rw [goes, later n, List.getElem?_cons_succ]

/-- A stream that has ended stays ended. -/
theorem yields_nil_of_ended (h : s.ended = true) : s.Yields [] := by
  have stays : s.next = (none, s) := by rw [next, if_pos h]
  intro n
  induction n with
  | zero => exact congrArg Prod.fst stays
  | succ n ih =>
    have goes : s.after (n + 1) = s.after n := congrArg (fun next => next.2.after n) stays
    rw [goes, ih]
    rfl

/-- A stream yields the tokens of the scan, and its failure if it fails. -/
theorem yields_ofCursor (c : Cursor) :
    (ofCursor c).Yields
      (c.scan.1.map .ok ++ match c.scan.2 with
        | .ok _ => []
        | .error e => [.error e]) := by
  fun_induction Cursor.scan c with
  | case1 c t c' found later ih =>
    have first : (ofCursor c).next = (some (.ok t), ofCursor c') := by
      simp [ofCursor, next, found]
    exact yields_cons first ih
  | case2 c c' found =>
    have ends : (ofCursor c).next = (none, ⟨c', true⟩) := by simp [ofCursor, next, found]
    intro n
    cases n with
    | zero => exact congrArg Prod.fst ends
    | succ n =>
      have goes : (ofCursor c).after (n + 1) = after ⟨c', true⟩ n :=
        congrArg (fun next => next.2.after n) ends
      rw [goes]
      exact yields_nil_of_ended rfl n
  | case3 c e c' found =>
    have fails : (ofCursor c).next = (some (.error e), ⟨c', true⟩) := by simp [ofCursor, next, found]
    exact yields_cons fails (yields_nil_of_ended rfl)

/-- The stream of a text without failure yields all tokens but the end of the input. -/
theorem yields_of_tokens_ok {c : Cursor} {tokens : List Token} (read : c.tokens = .ok tokens) :
    (ofCursor c).Yields (tokens.dropLast.map .ok) := by
  obtain ⟨last, ends, rfl⟩ := Cursor.tokens_eq_ok_iff.mp read
  rw [List.dropLast_concat]
  have streams := yields_ofCursor c
  rwa [ends, List.append_nil] at streams

/-- The stream of a text with a failure yields what the calls return up to there. -/
theorem exists_yields_of_tokens_error {c : Cursor} {error : Diagnostic LexFault}
    (failed : c.tokens = .error error) :
    ∃ later : List Token, (∀ n < later.length, (c.after n).next.1 = .ok later[n]?) ∧
      (c.after later.length).next.1 = .error error ∧
      (ofCursor c).Yields (later.map .ok ++ [.error error]) := by
  have fails := Cursor.tokens_eq_error_iff.mp failed
  obtain ⟨earlier, last⟩ := Cursor.next_after_of_scan_error fails
  have streams := yields_ofCursor c
  rw [fails] at streams
  exact ⟨c.scan.1, earlier, last, streams⟩

end TokenStream

/-! ## The three ways agree -/

namespace Source

/-- After `k` calls that each returned a token, the rest of the source can be read in any of the three
ways, with the same result. In one go it gives the tokens of the whole source without the first `k`,
or the failure of the whole source. The stream yields these tokens but the end of the input, or the
tokens that further calls would return and then the failure, and nothing after that. The failure of
a source is the first one that calls come to. -/
theorem pull_agrees (source : Source) (k : Nat)
    (pulled : ∀ j < k, ∃ t, (source.cursorAfter j).next.1 = .ok (some t)) :
    (∀ tokens, source.tokenize = .ok tokens →
      (∀ j < k, (source.cursorAfter j).next.1 = .ok tokens[j]?) ∧
        (source.cursorAfter k).tokens = .ok (tokens.drop k) ∧
        (TokenStream.ofCursor (source.cursorAfter k)).Yields ((tokens.drop k).dropLast.map .ok)) ∧
      (∀ error, source.tokenize = .error error →
        (source.cursorAfter k).tokens = .error error ∧
          ∃ later : List Token,
            (∀ i < later.length, (source.cursorAfter (k + i)).next.1 = .ok later[i]?) ∧
              (source.cursorAfter (k + later.length)).next.1 = .error error ∧
              (TokenStream.ofCursor (source.cursorAfter k)).Yields (later.map .ok ++ [.error error])) ∧
      ∀ error, source.tokenize = .error error ↔
        ∃ n, (∀ j < n, ∀ e, (source.cursorAfter j).next.1 ≠ .error e) ∧
          (source.cursorAfter n).next.1 = .error error := by
  let start := Cursor.ofSource source
  obtain ⟨ts, rfl, yields⟩ := start.exists_yields_after pulled
  have goes (i : Nat) : source.cursorAfter (ts.length + i) = (source.cursorAfter ts.length).after i :=
    start.after_add ts.length i
  refine ⟨fun tokens tokenized => ?_, fun error failed => ?_, fun error => ?_⟩
  · have left := yields.tokens_ok tokenized
    refine ⟨fun j lt => ?_, left, TokenStream.yields_of_tokens_ok left⟩
    obtain ⟨t, call⟩ := pulled j lt
    rw [call, Cursor.getElem?_tokens tokenized call]
  · have left := yields.tokens_error failed
    obtain ⟨later, calls, last, streams⟩ := TokenStream.exists_yields_of_tokens_error left
    refine ⟨left, later, fun i lt => ?_, ?_, streams⟩
    · rw [goes]
      exact calls i lt
    · rw [goes]
      exact last
  · exact Cursor.tokens_eq_error_iff.trans Cursor.scan_eq_error_iff

/-- Two tokens with nothing but a comment behind them, and a lone exclamation mark behind a token. -/
theorem pull_agrees_comment :
    let source : Source := ⟨"a;//x", none⟩
    let broken : Source := ⟨"a !b", none⟩
    (∃ tokens, source.tokenize = .ok tokens ∧
        (source.cursorAfter 2).tokens = .ok (tokens.drop 2) ∧
        (TokenStream.ofCursor (source.cursorAfter 2)).Yields ((tokens.drop 2).dropLast.map .ok)) ∧
      ∃ error, broken.tokenize = .error error ∧ (broken.cursorAfter 1).tokens = .error error := by
  intro source broken
  have pulled {s : Source} {k : Nat}
      (h : ∀ j < k, ((s.cursorAfter j).next.1.toOption.bind id).isSome) :
      ∀ j < k, ∃ t, (s.cursorAfter j).next.1 = .ok (some t) := by
    intro j lt
    have some := h j lt
    cases call : (s.cursorAfter j).next.1 with
    | error => simp [call, Except.toOption] at some
    | ok found =>
      cases found with
      | none => simp [call, Except.toOption] at some
      | some t => exact ⟨t, rfl⟩
  obtain ⟨tokens, tokenized⟩ : ∃ tokens, source.tokenize = .ok tokens := by
    have succeeds : source.tokenize.isOk = true := by decide +kernel
    cases lexed : source.tokenize with
    | ok tokens => exact ⟨tokens, rfl⟩
    | error => simp [lexed, Except.isOk, Except.toBool] at succeeds
  obtain ⟨error, failed⟩ : ∃ error, broken.tokenize = .error error := by
    have fails : broken.tokenize.isOk = false := by decide +kernel
    cases lexed : broken.tokenize with
    | error error => exact ⟨error, rfl⟩
    | ok => simp [lexed, Except.isOk, Except.toBool] at fails
  obtain ⟨all, -, -⟩ := pull_agrees source 2 (pulled (by decide +kernel))
  obtain ⟨-, fails, -⟩ := pull_agrees broken 1 (pulled (by decide +kernel))
  exact ⟨⟨tokens, tokenized, (all tokens tokenized).2⟩, error, failed, (fails error failed).1⟩

end Source

end ThreeAddress
