import LineBasic.Proofs.Effect
import Mathlib.Data.List.Basic
import Mathlib.Data.List.TakeWhile

/-! PRINT item by item. The column that a comma fills up to is kept from one statement to the next, and printed texts
are joined in the report. So it does not show where a row of items is cut into statements, as long as the cut is
behind a comma or a semicolon. -/

namespace LineBasic

section Texts

/-- The column after two texts is the one after the second, from the one after the first. -/
theorem columnAfter_append (column : Nat) (first second : String) :
    columnAfter column (first ++ second) = columnAfter (columnAfter column first) second := by
  unfold columnAfter
  dsimp only
  rw [String.toList_append]
  generalize first.toList = before
  generalize second.toList = after
  by_cases hafter : '\n' ∈ after
  · have htaken : (after.reverse.takeWhile (· != '\n')).length ≠ after.reverse.length := by
      intro hlength
      have hall := List.takeWhile_eq_self_iff.mp ((List.takeWhile_prefix _).eq_of_length hlength)
      simpa using hall '\n' (List.mem_reverse.mpr hafter)
    rw [if_pos (by simp [hafter]), if_pos (by simpa using hafter), List.reverse_append, List.takeWhile_append,
      if_neg htaken]
  · have htaken : after.reverse.takeWhile (· != '\n') = after.reverse := by
      refine List.takeWhile_eq_self_iff.mpr fun c hc => ?_
      simpa using ne_of_mem_of_not_mem (List.mem_reverse.mp hc) hafter
    rw [if_neg (c := after.contains '\n' = true) (by simpa using hafter)]
    by_cases hbefore : '\n' ∈ before
    · rw [if_pos (by simp [hbefore]), if_pos (by simpa using hbefore), List.reverse_append, List.takeWhile_append,
        htaken, if_pos rfl, List.length_append, List.length_reverse, Nat.add_comm]
    · rw [if_neg (by simp [hbefore, hafter]), if_neg (by simpa using hbefore), List.length_append, Nat.add_assoc]

theorem columnAfter_blanks (column blanks : Nat) :
    columnAfter column (String.ofList (List.replicate blanks ' ')) = column + blanks := by
  unfold columnAfter
  dsimp only
  rw [String.toList_ofList, if_neg (by simp), List.length_replicate]

theorem appendPrint_cons {rest : List Event} (h : rest ≠ []) (text : String) (event : Event) :
    appendPrint text (event :: rest) = event :: appendPrint text rest := by
  cases rest with
  | nil => exact absurd rfl h
  | cons next others => cases event <;> rfl

theorem appendPrint_ne_nil (text : String) (events : List Event) : appendPrint text events ≠ [] := by
  fun_cases appendPrint text events <;> simp

/-- Texts printed one after the other are reported as one. -/
theorem appendPrint_append (first second : String) (events : List Event) :
    appendPrint second (appendPrint first events) = appendPrint (first ++ second) events := by
  fun_induction appendPrint first events with
  | case1 => rfl
  | case2 before =>
      rw [appendPrint, appendPrint, String.append_assoc]
  | case3 event rest hnotLast ih =>
      rw [appendPrint_cons (appendPrint_ne_nil first rest), ih, appendPrint]
      exact hnotLast

theorem Session.column_print (session : Session) (text : String) :
    (session.print text).column = columnAfter session.column text := rfl

theorem Session.print_append (session : Session) (first second : String) :
    (session.print first).print second = session.print (first ++ second) := by
  unfold Session.print
  dsimp only
  rw [columnAfter_append, appendPrint_append]

end Texts

def PrintItem.expr? : PrintItem → Option Expr
  | .expr value => some value
  | _ => none

/-- Evaluating in a row is evaluating the first and then the others, which find as many calls open. -/
theorem Workspace.outcome_evalAll_cons (scope : Scope) (first : Expr) (rest : List Expr) (work : Workspace) :
    (evalAll scope (first :: rest)).outcome work =
      (do let value ← eval scope first; let values ← evalAll scope rest; return value :: values : Act _ _).outcome
        work := by
  have hdepth := sameDepth_eval scope first work
  have heval : ∀ expr, (eval scope expr).outcome work =
      (evalWith scope (callUser scope (maxDepth - work.depth)) expr).outcome work := fun _ => rfl
  have hall : ∀ (exprs : List Expr) (work : Workspace), (evalAll scope exprs).outcome work =
      (evalAllWith scope (callUser scope (maxDepth - work.depth)) exprs).outcome work := fun _ _ => rfl
  rw [Act.outcome_bind, hall, evalAllWith, Act.outcome_bind, ← heval]
  revert hdepth
  rcases (eval scope first).outcome work with ⟨fault | value, after⟩
  · exact fun _ => rfl
  · intro hdepth
    dsimp only
    rw [Act.outcome_bind, Act.outcome_bind, hall rest after, show after.depth = work.depth from hdepth]

namespace SessionAct

open Act Session

section Aside

/-- An action that neither sees nor changes what was printed. -/
def AsideOfPrint {α : Type} (action : SessionAct α) : Prop :=
  ∀ (session : Session) (text : String), action.outcome (session.print text) =
    ((action.outcome session).1, (action.outcome session).2.print text)

theorem asideOfPrint_pure {α : Type} (value : α) : AsideOfPrint (pure value) := fun _ _ => rfl

theorem asideOfPrint_eval (expr : Expr) : AsideOfPrint (eval expr) := fun _ _ => rfl

theorem AsideOfPrint.bind {α β : Type} {action : SessionAct α} {next : α → SessionAct β} (h : AsideOfPrint action)
    (hnext : ∀ value, AsideOfPrint (next value)) : AsideOfPrint (action >>= next) := by
  intro session text
  rw [outcome_bind, outcome_bind, h]
  rcases action.outcome session with ⟨fault | value, after⟩
  · rfl
  · exact hnext value after text

theorem asideOfPrint_printText (column : Nat) (text : String) (items : List PrintItem) :
    AsideOfPrint (printText column text items) := by
  induction items generalizing text with
  | nil => exact asideOfPrint_pure text
  | cons item rest ih =>
      cases item with
      | expr expr =>
          refine (asideOfPrint_eval expr).bind fun value => ?_
          cases value <;> exact ih _
      | comma => exact ih _
      | semicolon => exact ih _

end Aside

section Items

variable {session : Session} {xs ys : List PrintItem}

/-- The text of items is put behind the text before them, and depends on that only by the column after it. -/
theorem printText_eq_map (column : Nat) (text : String) (items : List PrintItem) :
    printText column text items = (text ++ ·) <$> printText (columnAfter column text) "" items := by
  induction items generalizing column text with
  | nil =>
      rw [printText, printText, map_pure, String.append_empty]
  | cons item rest ih =>
      have hmore : ∀ more : String, printText column (text ++ more) rest =
          (text ++ ·) <$> printText (columnAfter column text) ("" ++ more) rest := by
        intro more
        rw [ih column (text ++ more), ih _ ("" ++ more), columnAfter_append, String.empty_append, Functor.map_map]
        simp only [String.append_assoc]
      cases item with
      | expr expr =>
          rw [printText, printText, map_bind]
          congr 1
          funext value
          cases value <;> simp only [String.append_assoc, hmore]
      | comma => exact hmore _
      | semicolon => exact ih column text

theorem printText_append (column : Nat) (text : String) (xs ys : List PrintItem) :
    printText column text (xs ++ ys) = printText column text xs >>= fun shown => printText column shown ys := by
  induction xs generalizing text with
  | nil => rw [List.nil_append, printText, pure_bind]
  | cons item rest ih =>
      cases item with
      | expr expr =>
          rw [List.cons_append, printText, printText, bind_assoc]
          congr 1
          funext value
          cases value <;> exact ih _
      | comma => exact ih _
      | semicolon => exact ih _

theorem outcome_evalAll_cons (first : Expr) (rest : List Expr) (session : Session) :
    (evalAll (first :: rest)).outcome session =
      (do let value ← eval first; let values ← evalAll rest; return value :: values : SessionAct _).outcome session := by
  have hwork := Workspace.outcome_evalAll_cons session.scope first rest session.work
  rw [outcome_bind] at hwork ⊢
  have heval : (eval first).outcome session =
      (((Workspace.eval session.scope first).outcome session.work).1,
        { session with work := ((Workspace.eval session.scope first).outcome session.work).2 }) := rfl
  have hall : ∀ (exprs : List Expr) (work : Workspace), (evalAll exprs).outcome { session with work } =
      (((Workspace.evalAll session.scope exprs).outcome work).1,
        { session with work := ((Workspace.evalAll session.scope exprs).outcome work).2 }) := fun _ _ => rfl
  rw [heval, hall (first :: rest) session.work, hwork]
  rcases (Workspace.eval session.scope first).outcome session.work with ⟨fault | value, after⟩
  · rfl
  · dsimp only
    rw [outcome_bind, outcome_bind, hall rest after]
    rcases (Workspace.evalAll session.scope rest).outcome after with ⟨fault | values, last⟩ <;> rfl

/-- Items whose expressions have values have a text, and nothing but the workspace is touched. -/
theorem exists_printText {items : List PrintItem} {values : List Value}
    (h : ((evalAll (items.filterMap PrintItem.expr?)).outcome session).1 = .ok values) (column : Nat) (text : String) :
    ∃ shown work, (printText column text items).outcome session = (.ok shown, { session with work }) := by
  induction items generalizing session values text with
  | nil => exact ⟨text, session.work, rfl⟩
  | cons item rest ih =>
      cases item with
      | expr expr =>
          have hexprs : (PrintItem.expr expr :: rest).filterMap PrintItem.expr? =
              expr :: rest.filterMap PrintItem.expr? := rfl
          rw [hexprs, outcome_evalAll_cons] at h
          obtain ⟨value, after, heval, hothers⟩ := exists_of_bind_ok h
          obtain ⟨others, _, hrest, -⟩ := exists_of_bind_ok hothers
          have hwork : WorkOnly session _ := relates_eval expr session
          rw [heval] at hwork
          obtain ⟨work, rfl⟩ := hwork
          rw [printText, outcome_bind, heval]
          cases value <;> exact ih (congrArg Prod.fst hrest) _
      | comma => exact ih h _
      | semicolon => exact ih h _

theorem workOnly_of_printText {items : List PrintItem} {column : Nat} {text shown : String} {after : Session}
    (h : (printText column text items).outcome session = (.ok shown, after)) : WorkOnly session after := by
  have hwork : WorkOnly session _ := relates_printText column text items session
  rwa [h] at hwork

/-- PRINT shows the text of its items, and a line feed unless they end in a separator. -/
theorem outcome_printItems {items : List PrintItem} {text : String} {after : Session}
    (htext : (printText session.column "" items).outcome session = (.ok text, after)) :
    (printItems items).outcome session = (.ok ⟨⟩, after.print (if staysOnLine items then text else text ++ "\n")) := by
  unfold printItems
  rw [outcome_bind, outcome_get]
  dsimp only
  rw [outcome_bind, htext]
  rfl

theorem staysOnLine_append (xs : List PrintItem) (hys : ys ≠ []) : staysOnLine (xs ++ ys) = staysOnLine ys := by
  unfold staysOnLine
  rw [List.getLast?_append_of_ne_nil xs hys]

/-- The text of a row of items is that of its first part, and that of the other part from the column after it. -/
theorem exists_printText_append {text : String} {after : Session}
    (htext : (printText session.column "" (xs ++ ys)).outcome session = (.ok text, after)) :
    ∃ first second middle, text = first ++ second ∧
      (printText session.column "" xs).outcome session = (.ok first, middle) ∧
      (printText (columnAfter session.column first) "" ys).outcome middle = (.ok second, after) := by
  have hfst := congrArg Prod.fst htext
  rw [printText_append] at hfst htext
  obtain ⟨first, middle, hfirst, -⟩ := exists_of_bind_ok hfst
  rw [outcome_bind, hfirst] at htext
  dsimp only at htext
  rw [printText_eq_map, outcome_map] at htext
  rcases hsecond : (printText (columnAfter session.column first) "" ys).outcome middle with ⟨fault | second, last⟩
  · rw [hsecond] at htext
    cases htext
  · rw [hsecond] at htext
    cases htext
    exact ⟨first, second, middle, rfl, hfirst, hsecond⟩

/-- A row of items that is cut behind a separator is printed as in one piece. -/
theorem outcome_printItems_append {text : String} {after : Session} (hstays : staysOnLine xs = true) (hys : ys ≠ [])
    (htext : (printText session.column "" (xs ++ ys)).outcome session = (.ok text, after)) :
    (do printItems xs; printItems ys : SessionAct Unit).outcome session = (printItems (xs ++ ys)).outcome session := by
  obtain ⟨first, second, middle, rfl, hfirst, hsecond⟩ := exists_printText_append htext
  obtain ⟨work, rfl⟩ := workOnly_of_printText hfirst
  have hothers := asideOfPrint_printText (columnAfter session.column first) "" ys { session with work } first
  rw [hsecond] at hothers
  rw [outcome_bind, outcome_printItems hfirst, if_pos hstays]
  refine (outcome_printItems hothers).trans ?_
  rw [outcome_printItems htext, staysOnLine_append xs hys]
  dsimp only
  rw [print_append]
  split <;> simp only [String.append_assoc]

/-- A comma puts blanks behind what is printed, at least one, and so many that a zone begins after them. -/
theorem outcome_printItems_comma {text : String} {after : Session}
    (htext : (printText session.column "" xs).outcome session = (.ok text, after)) :
    ∃ told blanks, (printItems (xs ++ [.semicolon])).outcome session = (.ok ⟨⟩, told) ∧
      (printItems (xs ++ [.comma])).outcome session =
        (.ok ⟨⟩, told.print (String.ofList (List.replicate blanks ' '))) ∧
      0 < blanks ∧ printZone ∣ (told.print (String.ofList (List.replicate blanks ' '))).column := by
  obtain ⟨work, rfl⟩ := workOnly_of_printText htext
  have hseparated : ∀ item, (printText session.column "" (xs ++ [item])).outcome session =
      (printText session.column text [item]).outcome { session with work } := by
    intro item
    rw [printText_append, outcome_bind, htext]
  have hstays : ∀ item, item = .comma ∨ item = .semicolon → staysOnLine (xs ++ [item]) = true := by
    rintro item (rfl | rfl) <;> exact staysOnLine_append xs (by simp)
  let blanks := printZone - columnAfter session.column text % printZone
  refine ⟨({ session with work } : Session).print text, blanks, ?_, ?_, ?_, ?_⟩
  · rw [outcome_printItems (hseparated .semicolon), if_pos (hstays _ (.inr rfl))]
  · rw [outcome_printItems (hseparated .comma), if_pos (hstays _ (.inl rfl)), print_append]
  · exact Nat.sub_pos_of_lt (Nat.mod_lt _ (by decide))
  · rw [column_print, column_print, columnAfter_blanks]
    dsimp only
    have hzone := Nat.mod_add_div (columnAfter session.column text) printZone
    refine ⟨columnAfter session.column text / printZone + 1, ?_⟩
    have hlt : columnAfter session.column text % printZone < printZone := Nat.mod_lt _ (by decide)
    rw [Nat.mul_add, Nat.mul_one]
    omega

/-- **PRINT can be split at any separator.** Where all expressions have values, items that are printed up to a comma or
semicolon, and then the others, leave the session that all leave when they are printed at once: with the same report,
the same column and the same variables. Each comma among them puts blanks behind what was printed before it, at least
one, up to the start of a zone. -/
theorem print_splits_at_separators (session : Session) (xs ys : List PrintItem)
    (hlast : xs.getLast? = some .comma ∨ xs.getLast? = some .semicolon) (hys : ys ≠ [])
    (hvalues : ∃ values, ((evalAll ((xs ++ ys).filterMap PrintItem.expr?)).outcome session).1 = .ok values) :
    ∃ after,
      (command (.print (xs ++ ys))).outcome session = (.ok ⟨⟩, after) ∧
      (do command (.print xs); command (.print ys) : SessionAct Unit).outcome session = (.ok ⟨⟩, after) ∧
      ∀ before rest, xs ++ ys = before ++ .comma :: rest → ∃ told blanks,
        (command (.print (before ++ [.semicolon]))).outcome session = (.ok ⟨⟩, told) ∧
        (command (.print (before ++ [.comma]))).outcome session =
          (.ok ⟨⟩, told.print (String.ofList (List.replicate blanks ' '))) ∧
        0 < blanks ∧ 14 ∣ (told.print (String.ofList (List.replicate blanks ' '))).column ∧
        (rest ≠ [] → (do command (.print (before ++ [.comma])); command (.print rest) : SessionAct Unit).outcome
          session = (.ok ⟨⟩, after)) := by
  obtain ⟨values, hvalues⟩ := hvalues
  obtain ⟨text, work, htext⟩ := exists_printText hvalues session.column ""
  have hwhole := outcome_printItems htext
  have hcut : ∀ first second : List PrintItem, first ++ second = xs ++ ys → staysOnLine first = true → second ≠ [] →
      (do printItems first; printItems second : SessionAct Unit).outcome session =
        (printItems (xs ++ ys)).outcome session := by
    intro first second hsplit hstays hsecond
    rw [← hsplit] at htext ⊢
    exact outcome_printItems_append hstays hsecond htext
  refine ⟨_, hwhole, (hcut xs ys rfl ?_ hys).trans hwhole, fun before rest hsplit => ?_⟩
  · unfold staysOnLine
    rcases hlast with hlast | hlast <;> rw [hlast]
  · rw [hsplit] at htext
    obtain ⟨first, second, middle, -, hfirst, -⟩ := exists_printText_append htext
    obtain ⟨told, blanks, hsemicolon, hcomma, hpos, hzone⟩ := outcome_printItems_comma hfirst
    refine ⟨told, blanks, hsemicolon, hcomma, hpos, hzone, fun hrest => (hcut _ rest ?_ ?_ hrest).trans hwhole⟩
    · rw [List.append_assoc, hsplit]
      rfl
    · exact staysOnLine_append before (by simp)

/-- A session in the fourth column, and items with a line feed in a text and two commas. -/
def inFourthColumn : Session := ({} : Session).print "ABC"

def withLineFeed : List PrintItem := [.expr (.int 1), .comma, .expr (.text "X\nYZ"), .comma]

def oneNumber : List PrintItem := [.expr (.int 2)]

theorem print_splits_at_separators_withLineFeed :
    (evalAll ((withLineFeed ++ oneNumber).filterMap PrintItem.expr?)).outcome inFourthColumn =
        (.ok [.int 1, .text "X\nYZ", .int 2], inFourthColumn) ∧
      ∃ after, (do command (.print withLineFeed); command (.print oneNumber) : SessionAct Unit).outcome
          inFourthColumn = (.ok ⟨⟩, after) ∧
        (command (.print (withLineFeed ++ oneNumber))).outcome inFourthColumn = (.ok ⟨⟩, after) ∧
        after.events = [.print "ABC 1         X\nYZ             2 \n"] ∧ after.column = 0 := by
  have hvalues : (evalAll ((withLineFeed ++ oneNumber).filterMap PrintItem.expr?)).outcome inFourthColumn =
      (.ok [.int 1, .text "X\nYZ", .int 2], inFourthColumn) := by rfl
  obtain ⟨after, hwhole, hparts, -⟩ := print_splits_at_separators inFourthColumn withLineFeed oneNumber
    (.inl rfl) (by decide) ⟨_, congrArg Prod.fst hvalues⟩
  refine ⟨hvalues, after, hparts, hwhole, ?_⟩
  have hevents : ((command (.print (withLineFeed ++ oneNumber))).outcome inFourthColumn).2.events =
      [.print "ABC 1         X\nYZ             2 \n"] ∧
      ((command (.print (withLineFeed ++ oneNumber))).outcome inFourthColumn).2.column = 0 := by
    decide +kernel
  rwa [hwhole] at hevents

end Items

end SessionAct

end LineBasic
