import LineBasic.Proofs.Evaluation

/-! Entering texts. A text that is entered is first given a number from AUTO, where it has none of its own,
and read then. A text that cannot be read is reported and leaves the session as it was, but for AUTO: the
number that the text was given is used up by then. -/

namespace LineBasic

/-- Where automatic numbering goes on once its next number is used up. It ends where the numbers do. -/
def AutoNumber.following? (auto : AutoNumber) : Option AutoNumber :=
  if auto.next + auto.step ≤ Line.maxNumber then some { auto with next := auto.next + auto.step } else none

theorem AutoNumber.following?_eq_some_self {auto : AutoNumber} :
    auto.following? = some auto ↔ auto.step = 0 ∧ auto.next ≤ Line.maxNumber := by
  obtain ⟨next, step⟩ := auto
  rw [following?]
  dsimp only
  split <;> simp only [Option.some.injEq, AutoNumber.mk.injEq, and_true, reduceCtorEq, false_iff] <;> omega

theorem Settings.nextAuto_eq (settings : Settings) :
    settings.nextAuto =
      (settings.auto.map (·.next), { settings with auto := settings.auto.bind AutoNumber.following? }) := by
  obtain ⟨auto⟩ := settings
  cases auto <;> rfl

namespace Session

variable {session : Session} {entered : String}

/-- A text as it is entered, without the ends of lines that it ends with. -/
def entryText (entered : String) : List Char := Text.dropEndWhile (fun c => c == '\r' || c == '\n') entered.toList

/-- Whether a text that is entered has a line number of its own. -/
def hasNumber (entered : String) : Bool := (((entryText entered).dropWhile Text.isBlank).head?).any Char.isDigit

/-- The text that is read when one is entered, if AUTO leaves any. -/
def enteredText? (session : Session) (entered : String) : Option String :=
  match session.settings.auto with
  | some auto =>
      if hasNumber entered then some (String.ofList (entryText entered))
      else if (entryText entered).all Text.isBlank then none
      else some (toString auto.next ++ " " ++ String.ofList (entryText entered))
  | none => some (String.ofList (entryText entered))

/-- Automatic numbering once a text is entered. -/
def autoAfter (session : Session) (entered : String) : Option AutoNumber :=
  if hasNumber entered then session.settings.auto else session.settings.auto.bind AutoNumber.following?

/-- A text gets its number, and nothing but automatic numbering has to do with it. -/
theorem numberedText_eq (session : Session) (entered : String) :
    session.numberedText entered =
      (session.enteredText? entered,
        { session with settings := { session.settings with auto := session.autoAfter entered } }) := by
  rw [numberedText, Settings.nextAuto_eq, enteredText?, autoAfter, hasNumber, entryText]
  dsimp only
  cases hauto : session.settings.auto with
  | none =>
      have hsame : { session with settings := { session.settings with auto := none } } = session := by rw [← hauto]
      split <;> simp [hsame]
  | some auto =>
      have hsame : { session with settings := { session.settings with auto := some auto } } = session := by
        rw [← hauto]
      split
      · rw [hsame]
      · dsimp only [Option.map_some]
        split <;> rfl

/-- Without automatic numbering a text is read as it is. -/
theorem numberedText_of_auto_none (h : session.settings.auto = none) (entered : String) :
    session.numberedText entered = (some (String.ofList (entryText entered)), session) := by
  have htext : session.enteredText? entered = some (String.ofList (entryText entered)) := by rw [enteredText?, h]
  have hafter : session.autoAfter entered = session.settings.auto := by
    rw [autoAfter, h]
    exact ite_self _
  rw [numberedText_eq, htext, hafter]

theorem autoAfter_eq_iff :
    session.autoAfter entered = session.settings.auto ↔
      session.settings.auto = none ∨ hasNumber entered = true ∨
        ∃ auto, session.settings.auto = some auto ∧ auto.step = 0 ∧ auto.next ≤ Line.maxNumber := by
  rw [autoAfter]
  cases hauto : session.settings.auto with
  | none => simp
  | some auto =>
      by_cases hnumber : hasNumber entered = true
      · simp [hnumber]
      · simp [hnumber, AutoNumber.following?_eq_some_self]

/-- A text that is refused has been read, with faults, and is reported once it has got its number. -/
theorem enter_refused (h : (session.enter entered).1 = false) :
    ∃ text, session.enteredText? entered = some text ∧ (Parsed.ofTokens (Token.lex text)).faults ≠ [] ∧
      (session.enter entered).2 =
        { session with
          settings := { session.settings with auto := session.autoAfter entered }
          events := session.events ++ [.faults (Parsed.ofTokens (Token.lex text)).faults] } := by
  rw [enter, numberedText_eq] at h ⊢
  cases htext : session.enteredText? entered with
  | none =>
      rw [htext] at h
      cases h
  | some text =>
      rw [htext] at h
      dsimp only at h ⊢
      by_cases hfaults : (Parsed.ofTokens (Token.lex text)).faults.isEmpty = true
      · rw [if_pos hfaults] at h
        cases h
      · rw [if_neg hfaults]
        exact ⟨text, rfl, fun hnil => hfaults (List.isEmpty_iff.mpr hnil), rfl⟩

/-- **A text that is refused changes nothing but AUTO.** For every session and every text that cannot be
read, entering it adds one event with the faults of the text, and the session is otherwise as it was but for
automatic numbering. That is as it was too if and only if it is off, the text has a number of its own or the
next number is the same again; else the number that was put in front of the text is used up. -/
theorem refused_entry_keeps_session_iff (h : (session.enter entered).1 = false) :
    ∃ text faults, session.enteredText? entered = some text ∧ (Parsed.ofTokens (Token.lex text)).faults = faults ∧
      faults ≠ [] ∧
      (session.enter entered).2 =
        { session with
          settings := { session.settings with auto := session.autoAfter entered }
          events := session.events ++ [.faults faults] } ∧
      ((session.enter entered).2 = { session with events := session.events ++ [.faults faults] } ↔
        session.settings.auto = none ∨ hasNumber entered = true ∨
          ∃ auto, session.settings.auto = some auto ∧ auto.step = 0 ∧ auto.next ≤ Line.maxNumber) := by
  obtain ⟨text, htext, hfaults, hafter⟩ := enter_refused h
  refine ⟨text, _, htext, rfl, hfaults, hafter, ?_⟩
  rw [← autoAfter_eq_iff, hafter]
  constructor
  · exact fun hsame => congrArg (·.settings.auto) hsame
  · intro hauto
    rw [hauto]

/-- A session in which AUTO gives the next line the number 100. -/
def numbering : Session := (Session.execute 1 (({} : Session).enter "AUTO 100,10").2).2

theorem refused_entry_keeps_session_iff_numbering :
    (numbering.enter "20 PRINT (").1 = false ∧
      ∃ faults, (numbering.enter "20 PRINT (").2 = { numbering with events := numbering.events ++ [.faults faults] } := by
  have hrefused : (numbering.enter "20 PRINT (").1 = false ∧ hasNumber "20 PRINT (" = true := by
    rw [numbering, enter_eq, enter_eq]
    decide +kernel
  obtain ⟨_, faults, -, -, -, -, hsame⟩ := refused_entry_keeps_session_iff hrefused.1
  exact ⟨hrefused.1, faults, hsame.mpr (.inr (.inl hrefused.2))⟩

/-- A text without a number of its own is refused, and the next one is offered another number. -/
theorem refused_entry_uses_number :
    (numbering.enter "PRINT (").1 = false ∧ numbering.settings.auto = some ⟨100, 10⟩ ∧
      (numbering.enter "PRINT (").2.settings.auto = some ⟨110, 10⟩ ∧
      ∀ events, (numbering.enter "PRINT (").2 ≠ { numbering with events } := by
  have hfacts : (numbering.enter "PRINT (").1 = false ∧ numbering.settings.auto = some ⟨100, 10⟩ ∧
      (numbering.enter "PRINT (").2.settings.auto = some ⟨110, 10⟩ := by
    rw [numbering, enter_eq, enter_eq]
    decide +kernel
  refine ⟨hfacts.1, hfacts.2.1, hfacts.2.2, fun events hsame => ?_⟩
  have hauto := congrArg (·.settings.auto) hsame
  dsimp only at hauto
  rw [hfacts.2.1, hfacts.2.2] at hauto
  cases hauto

end Session

end LineBasic
