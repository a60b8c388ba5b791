import LineBasic.Proofs.DataReads
import LineBasic.Proofs.Numerals

/-! Numbers in DATA. What a numeric variable makes of an unquoted item is settled by two scans. The first
looks at the characters alone and refuses an item with a stray one, which no numeral has. The second takes
the longest numeral that the item starts with. They agree on an item that is blank, is a numeral from its
start to its end or has a stray character. Whatever else there is, such as a sign between two digits, passes
the first scan and is left unread by the second. -/

namespace LineBasic

namespace Text

theorem dropEndWhile_eq_nil_iff {p : Char → Bool} {text : List Char} :
    dropEndWhile p text = [] ↔ ∀ c ∈ text, p c = true := by
  rw [dropEndWhile, List.reverse_eq_nil_iff, List.dropWhile_eq_nil_iff]
  simp only [List.mem_reverse]

/-- Nothing is left of blanks when they are trimmed, and of nothing else. -/
theorem trim_eq_nil_iff {text : List Char} : trim text = [] ↔ ∀ c ∈ text, isBlank c = true := by
  rw [trim, trimEnd, dropEndWhile_eq_nil_iff]
  constructor
  · intro hblank c hc
    have hsplit : text.takeWhile isBlank ++ text.dropWhile isBlank = text := List.takeWhile_append_dropWhile
    rw [← hsplit] at hc
    rcases List.mem_append.mp hc with hc | hc
    · exact List.mem_takeWhile_imp hc
    · exact hblank c hc
  · exact fun hblank c hc => hblank c ((List.dropWhile_sublist isBlank).subset hc)

theorem mem_of_mem_trim {text : List Char} {c : Char} (h : c ∈ trim text) : c ∈ text :=
  (List.dropWhile_sublist isBlank).subset (Token.Piece.trimEnd_mem h)

theorem not_isBlank_of_isDigit {c : Char} (h : c.isDigit = true) : isBlank c = false := by
  rw [Chars.isDigit_iff] at h
  unfold isBlank
  simp
  omega

end Text

namespace Number.Numeral

/-- A numeral that nothing follows cannot be read any further. -/
theorem ends_nil (n : Numeral) : n.Ends [] where
  sign habsent := by
    have hhead := n.head_ne_sign (powerText n.exponent) fun hnone => by rw [hnone]; rfl
    rw [List.append_nil, text, habsent]
    exact hhead
  digit := nofun
  point _ _ := nofun
  exponent _ _ x hx := by
    rw [List.prefix_nil] at hx
    cases hx

/-- A numeral with a `D` for the mark of its exponent. -/
def isDouble (n : Numeral) : Bool := n.exponent.any (·.mark == 'D')

theorem isDoubleIn_text (n : Numeral) : n.IsDoubleIn n.text ↔ n.isDouble = true := by
  have hhead := Value.isDoubleIn_iff n []
  rw [List.append_nil, List.append_nil] at hhead
  rw [hhead, isDouble]
  cases n.exponent with
  | none => simp [powerText]
  | some x => simp [powerText, Exponent.text]

/-- Whether a text is a numeral from its start to its end, but for its spaces and the case of its letters.
The numeral has a digit. -/
def IsWholeOf (n : Numeral) (source : String) : Prop := n.digits ≠ [] ∧ n.text = Value.compact source

theorem mem_text {n : Numeral} {c : Char} (h : c ∈ n.text) :
    c.isDigit = true ∨ c ∈ ['+', '-', '.', 'E', 'D'] := by
  have hsign : ∀ sign : Sign, c ∈ sign.text → c ∈ ['+', '-', '.', 'E', 'D'] := by
    intro sign hc
    cases sign <;> simp_all [Sign.text]
  rw [text, mantissa] at h
  simp only [List.mem_append] at h
  rcases h with hc | ⟨hc | hc⟩ | hc
  · exact .inr (hsign _ hc)
  · exact .inl (n.isDigit_whole c hc)
  · cases hfraction : n.fraction with
    | none =>
        rw [hfraction] at hc
        cases hc
    | some digits =>
        rw [hfraction] at hc
        rcases List.mem_cons.mp hc with rfl | hc
        · exact .inr (by decide)
        · exact .inl (isDigit_of_fraction hfraction c hc)
  · cases hexponent : n.exponent with
    | none =>
        rw [hexponent] at hc
        cases hc
    | some x =>
        rw [hexponent, powerText, Exponent.text, List.mem_cons, List.mem_append] at hc
        rcases hc with rfl | hc | hc
        · rcases x.mark_eq with hmark | hmark <;> (rw [hmark]; exact .inr (by decide))
        · exact .inr (hsign _ hc)
        · exact .inl (x.isDigit c hc)

theorem exists_digit (n : Numeral) (h : n.digits ≠ []) : ∃ c ∈ n.text, c.isDigit = true := by
  obtain ⟨c, more, hdigits⟩ := List.exists_cons_of_ne_nil h
  have hc : c ∈ n.whole ++ n.fraction.getD [] := by
    rw [← digits, hdigits]
    exact List.mem_cons_self
  rcases List.mem_append.mp hc with hc | hc
  · refine ⟨c, ?_, n.isDigit_whole c hc⟩
    simp [text, mantissa, hc]
  · refine ⟨c, ?_, n.isDigit_fraction c hc⟩
    cases hfraction : n.fraction with
    | none =>
        rw [hfraction] at hc
        cases hc
    | some digits =>
        rw [hfraction] at hc
        have hmem : c ∈ digits := hc
        simp [text, mantissa, hfraction, pointText, hmem]

/-- A longest numeral with something behind it leaves the text without a numeral that it is in full. -/
theorem Ends.not_isWholeOf {n : Numeral} {source : String} {rest : List Char} (h : n.Ends rest)
    (htext : Value.compact source = n.text ++ rest) (hrest : rest ≠ []) (m : Numeral) : ¬m.IsWholeOf source := by
  rintro ⟨-, hm⟩
  have hlength := List.length_pos_iff.mpr hrest
  have heq : m.text = n.text ++ rest := hm.trans htext
  have hnone : m.text ++ [] = n.text ++ rest := (List.append_nil _).trans heq
  rcases h.longest hnone with rfl | hshorter
  · exact hrest (List.self_eq_append_right.mp heq)
  · rw [heq, List.length_append] at hshorter
    omega

end Number.Numeral

/-- Whether a text has nothing but blanks. -/
def IsBlankText (source : String) : Prop := ∀ c ∈ source.toList, Text.isBlank c = true

instance (source : String) : Decidable (IsBlankText source) :=
  List.decidableBAll (Text.isBlank · = true) source.toList

/-- Whether a text, trimmed, has a character that neither a numeral has nor stands between its parts. -/
def HasStray (source : String) : Prop :=
  ∃ c ∈ Text.trim source.toList, c.isDigit = false ∧ c.toUpper ∉ ['+', '-', '.', 'E', 'D', ' ']

instance (source : String) : Decidable (HasStray source) :=
  List.decidableBEx (fun c : Char => c.isDigit = false ∧ c.toUpper ∉ ['+', '-', '.', 'E', 'D', ' '])
    (Text.trim source.toList)

section Items

open Number

variable {n : Numeral} {source : String}

/-- The guard on an item is one on its characters. -/
theorem isNumericItem_iff : isNumericItem source.toList = true ↔ ¬IsBlankText source ∧ ¬HasStray source := by
  have hletter : ∀ c : Char, (c.isDigit || c == '+' || c == '-' || c == '.' || c.toUpper == 'E' ||
      c.toUpper == 'D' || c == ' ') = true ↔
        ¬(c.isDigit = false ∧ c.toUpper ∉ ['+', '-', '.', 'E', 'D', ' ']) := by
    intro c
    rw [← Chars.beq_toUpper (d := '+') rfl, ← Chars.beq_toUpper (d := '-') rfl, ← Chars.beq_toUpper (d := '.') rfl,
      ← Chars.beq_toUpper (d := ' ') rfl]
    rw [not_and_or, Bool.not_eq_false, not_not]
    simp [or_assoc]
  rw [isNumericItem, Bool.and_eq_true, List.all_eq_true, Bool.not_eq_true', List.isEmpty_eq_false_iff]
  refine and_congr (not_congr Text.trim_eq_nil_iff) ?_
  simp only [hletter, HasStray, not_exists, not_and]

/-- A numeral is neither blank, nor is there anything stray in it. -/
theorem isNumericItem_of_isWholeOf (h : n.IsWholeOf source) : isNumericItem source.toList = true := by
  obtain ⟨hdigits, htext⟩ := h
  refine isNumericItem_iff.mpr ⟨fun hblank => ?_, ?_⟩
  · obtain ⟨d, hd, hdigit⟩ := n.exists_digit hdigits
    rw [htext, Value.compact, List.mem_map] at hd
    obtain ⟨c, hc, rfl⟩ := hd
    rw [Chars.isDigit_toUpper] at hdigit
    have hnot := Text.not_isBlank_of_isDigit hdigit
    rw [hblank c (List.mem_filter.mp hc).1] at hnot
    cases hnot
  · rintro ⟨c, hc, hdigit, hstray⟩
    have hspace : c ≠ ' ' := by
      rintro rfl
      exact hstray (by decide)
    have hmem : c.toUpper ∈ n.text := by
      rw [htext]
      exact List.mem_map_of_mem (List.mem_filter.mpr ⟨Text.mem_of_mem_trim hc, bne_iff_ne.mpr hspace⟩)
    rcases Numeral.mem_text hmem with hdigit' | hpart
    · rw [Chars.isDigit_toUpper, hdigit] at hdigit'
      cases hdigit'
    · exact hstray (List.mem_append_left [' '] hpart)

/-- What is read of a numeral is its number. -/
theorem ofNumericText_of_isWholeOf (h : n.IsWholeOf source) : Value.ofNumericText source = n.value n.isDouble := by
  have htext : Value.compact source = n.text ++ [] := h.2.symm.trans (List.append_nil _).symm
  rw [Value.ofNumericText_of_ends htext n.ends_nil, ← h.2]
  simp only [n.isDoubleIn_text, Bool.decide_eq_true]

variable {target : Variable} {line : Nat}

/-- An unquoted item as a value for a numeric variable. -/
theorem valueFor_raw (htarget : target.name.type ≠ .text) :
    (⟨line, .raw source⟩ : DataItem).valueFor target =
      if IsBlankText source then .ok (.int 0)
      else if HasStray source then .error ((Fault.of .syntaxError).inLine (some line))
      else .ok (.ofNumericText source) := by
  rw [DataItem.valueFor, if_neg htarget]
  dsimp only
  by_cases hblank : IsBlankText source
  · rw [if_pos hblank, if_pos (List.isEmpty_iff.mpr (Text.trim_eq_nil_iff.mpr hblank))]
  · have htrim : (Text.trim source.toList).isEmpty ≠ true := fun hempty =>
      hblank (Text.trim_eq_nil_iff.mp (List.isEmpty_iff.mp hempty))
    rw [if_neg hblank, if_neg htrim]
    by_cases hstray : HasStray source
    · rw [if_pos hstray, if_neg fun hitem => (isNumericItem_iff.mp hitem).2 hstray]
    · rw [if_neg hstray, if_pos (isNumericItem_iff.mpr ⟨hblank, hstray⟩)]

end Items

namespace Session

open Act SessionAct Number

variable {session after : Session} {targets : List Variable} {index : Nat} {attempt : Attempt} {item : DataItem}

theorem Serves.result_eq {log : List Attempt} (h : Serves session log after)
    (hattempt : log[index]? = some attempt) (hitem : session.unread[index]? = some item) :
    attempt.result = item.valueFor attempt.target := by
  have hresults := congrArg (·[index]?) h.results
  simpa [handOut, hattempt, hitem] using hresults

/-- An attempt that is refused is the end of its READ. -/
theorem readLogged_of_refused {fault : Fault} (hattempt : attempt ∈ (readLogged targets session).1)
    (hfault : attempt.result = .error fault) : (readLogged targets session).2.1 = .error fault := by
  induction targets generalizing session with
  | nil => cases hattempt
  | cons target rest ih =>
      rw [readLogged] at hattempt ⊢
      revert hattempt
      rcases (readItem target).outcome session with ⟨refusal | value, given⟩
      · intro hattempt
        obtain rfl := List.mem_singleton.mp hattempt
        exact congrArg Except.error (Except.error.inj hfault)
      · dsimp only
        rcases (store target value).outcome given with ⟨refusal | _, stored⟩
        · intro hattempt
          obtain rfl := List.mem_singleton.mp hattempt
          cases hfault
        · intro hattempt
          rcases List.mem_cons.mp hattempt with rfl | hrest
          · cases hfault
          · exact ih hrest

/-- **READ takes a number whole or refuses it, where its two scans agree.** In every session that a host can
bring about, whenever READ turns to an unquoted item for a numeric variable, a blank item is zero, an item
that is in full a numeral is its number, and an item with a stray character makes READ fail with the syntax
error of the line of its DATA. Any other item is taken for the number of the longest numeral that it starts
with. So READ succeeds only on blank items and on numerals if and only if the item is blank, is a numeral or
has a stray character. -/
theorem numbers_read_whole_iff (h : session.Reachable) {line : Nat} {source : String}
    (hattempt : (readLogged targets session).1[index]? = some attempt)
    (hitem : session.unread[index]? = some ⟨line, .raw source⟩) (htarget : attempt.target.name.type ≠ .text) :
    (IsBlankText source → attempt.result = .ok (.int 0)) ∧
      (∀ n : Numeral, n.IsWholeOf source → attempt.result = .ok (n.value n.isDouble)) ∧
      (HasStray source →
        attempt.result = .error ((Fault.of .syntaxError).inLine (some line)) ∧
          ((read targets).outcome session).1 = .error ((Fault.of .syntaxError).inLine (some line))) ∧
      (¬IsBlankText source → ¬HasStray source → ∃ n : Numeral, n.IsLongest (Value.compact source) ∧
        attempt.result = .ok (n.value (n.IsDoubleIn (Value.compact source)))) ∧
      ((attempt.result.isOk = true → IsBlankText source ∨ ∃ n : Numeral, n.IsWholeOf source) ↔
        IsBlankText source ∨ (∃ n : Numeral, n.IsWholeOf source) ∨ HasStray source) := by
  have hresult : attempt.result = (⟨line, .raw source⟩ : DataItem).valueFor attempt.target :=
    (serves_readLogged h.fresh targets).result_eq hattempt hitem
  rw [valueFor_raw htarget] at hresult
  refine ⟨fun hblank => ?_, fun n hn => ?_, fun hstray => ?_, fun hblank hstray => ?_, fun hwhole => ?_, ?_⟩
  · rw [hresult, if_pos hblank]
  · obtain ⟨hblank, hstray⟩ := isNumericItem_iff.mp (isNumericItem_of_isWholeOf hn)
    rw [hresult, if_neg hblank, if_neg hstray, ofNumericText_of_isWholeOf hn]
  · have hblank : ¬IsBlankText source := fun hblank => by
      obtain ⟨c, hc, -⟩ := hstray
      rw [Text.trim_eq_nil_iff.mpr hblank] at hc
      cases hc
    rw [if_neg hblank, if_pos hstray] at hresult
    refine ⟨hresult, ?_⟩
    rw [outcome_read]
    exact readLogged_of_refused (List.mem_of_getElem? hattempt) hresult
  · rw [if_neg hblank, if_neg hstray] at hresult
    obtain ⟨n, rest, htext, hends⟩ := exists_ends (Value.compact source)
    refine ⟨n, ?_, hresult.trans (congrArg Except.ok (Value.ofNumericText_of_ends htext hends))⟩
    rw [htext]
    exact hends.isLongest_iff.mpr rfl
  · by_cases hstray : HasStray source
    · exact .inr (.inr hstray)
    · -- Nothing is refused but stray characters, so the attempt succeeds and only a blank item or a numeral may do that.
      have hok : attempt.result.isOk = true := by
        rw [hresult, if_neg hstray]
        split <;> rfl
      exact (hwhole hok).imp_right .inl
  · rintro (hblank | hnumeral | hstray) hok
    · exact .inl hblank
    · exact .inr hnumeral
    · by_cases hblank : IsBlankText source
      · exact .inl hblank
      · rw [hresult, if_neg hblank, if_pos hstray] at hok
        cases hok

/-- A program with a number, and an item that is none, before they are read. -/
def beforeNumbers : Session := afterCalls [.enter "10 DATA - 2.5d3, 1X"]

/-- The numeral in its first item. -/
def negativeDouble : Numeral where
  sign := .minus
  whole := ['2']
  fraction := some ['5']
  exponent := some ⟨'D', .absent, ['3'], .inr rfl, List.cons_ne_nil _ _, List.forall_mem_singleton.mpr rfl⟩
  isDigit_whole := List.forall_mem_singleton.mpr rfl
  isDigit_fraction := List.forall_mem_singleton.mpr rfl
  digits_ne _ := List.cons_ne_nil _ _

theorem numbers_read_whole_iff_beforeNumbers :
    ∃ first second : Attempt,
      (readLogged [.scalar (.ofWord "A#"), .scalar (.ofWord "B")] beforeNumbers).1 = [first, second] ∧
      first.result = .ok (negativeDouble.value true) ∧
      ((read [.scalar (.ofWord "A#"), .scalar (.ofWord "B")]).outcome beforeNumbers).1 =
        .error ((Fault.of .syntaxError).inLine (some 10)) := by
  -- The session is evaluated once, for all that is to be known of it.
  have hfacts : (readLogged [.scalar (.ofWord "A#"), .scalar (.ofWord "B")] beforeNumbers).1.map Attempt.target =
        [.scalar (.ofWord "A#"), .scalar (.ofWord "B")] ∧
      beforeNumbers.unread = [⟨10, .raw "- 2.5d3"⟩, ⟨10, .raw "1X"⟩] ∧
      (Name.ofWord "A#").type ≠ .text ∧ (Name.ofWord "B").type ≠ .text ∧
      HasStray "1X" ∧ negativeDouble.text = Value.compact "- 2.5d3" := by
    rw [beforeNumbers, afterCalls_eq]
    decide +kernel
  obtain ⟨htargets, hunread, hdouble, hsingle, hstray, htext⟩ := hfacts
  have hreachable : beforeNumbers.Reachable := reachable_afterCalls _
  obtain ⟨first, rest, hlog, hfirst, hrest⟩ := List.map_eq_cons_iff.mp htargets
  obtain ⟨second, last, hrest, hsecond, hlast⟩ := List.map_eq_cons_iff.mp hrest
  rw [hrest, List.map_eq_nil_iff.mp hlast] at hlog
  have hattempt (index : Nat) : (readLogged [.scalar (.ofWord "A#"), .scalar (.ofWord "B")] beforeNumbers).1[index]? =
      [first, second][index]? := congrArg (·[index]?) hlog
  have hitem (index : Nat) : beforeNumbers.unread[index]? =
      [⟨10, .raw "- 2.5d3"⟩, ⟨10, .raw "1X"⟩][index]? := congrArg (·[index]?) hunread
  refine ⟨first, second, hlog, ?_, ?_⟩
  · have hnumber := numbers_read_whole_iff hreachable (hattempt 0) (hitem 0) (by rw [hfirst]; exact hdouble)
    exact hnumber.2.1 negativeDouble ⟨by decide, htext⟩
  · have hrefused := numbers_read_whole_iff hreachable (hattempt 1) (hitem 1) (by rw [hsecond]; exact hsingle)
    exact (hrefused.2.2.1 hstray).2

/-- A program with a sign between two digits, before it is read. -/
def beforeMisplaced : Session := afterCalls [.enter "10 DATA 1-2"]

/-- The numeral that its item starts with. -/
def one : Numeral where
  sign := .absent
  whole := ['1']
  fraction := none
  exponent := none
  isDigit_whole := List.forall_mem_singleton.mpr rfl
  isDigit_fraction := nofun
  digits_ne := nofun

/-- The item `1-2` is neither blank nor a numeral, and READ succeeds on it. -/
theorem misplaced_sign_is_read :
    beforeMisplaced.Reachable ∧ beforeMisplaced.unread[0]? = some ⟨10, .raw "1-2"⟩ ∧
      ¬IsBlankText "1-2" ∧ (∀ n : Numeral, ¬n.IsWholeOf "1-2") ∧
      (readLogged [.scalar (.ofWord "A")] beforeMisplaced).1.map Attempt.result = [.ok (one.value false)] ∧
      ((read [.scalar (.ofWord "A")]).outcome beforeMisplaced).1 = .ok ⟨⟩ := by
  have hfacts : beforeMisplaced.unread[0]? = some ⟨10, .raw "1-2"⟩ ∧ ¬IsBlankText "1-2" ∧
      (readLogged [.scalar (.ofWord "A")] beforeMisplaced).1.map Attempt.result = [.ok (one.value false)] ∧
      ((read [.scalar (.ofWord "A")]).outcome beforeMisplaced).1 = .ok ⟨⟩ := by
    rw [beforeMisplaced, afterCalls_eq]
    decide +kernel
  obtain ⟨hunread, hblank, hresult, hread⟩ := hfacts
  have hends : one.Ends ['-', '2'] := by
    refine ⟨fun _ => ?_, ?_, fun _ _ => ?_, fun _ _ x hx => ?_⟩
    · rintro _ ⟨⟩
      decide
    · rintro _ ⟨⟩
      rfl
    · rintro _ ⟨⟩
      decide
    · have hmark := (List.cons_prefix_cons.mp hx).1
      rcases x.mark_eq with h | h <;> exact absurd (h.symm.trans hmark) (by decide)
  exact ⟨reachable_afterCalls _, hunread, hblank, hends.not_isWholeOf (by decide +kernel) nofun, hresult, hread⟩

end Session

end LineBasic
