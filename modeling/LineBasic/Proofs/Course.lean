import LineBasic.Proofs.Nesting

/-! The course of a program: how statements follow one another. Cursors are ordered by line, and by path within a
line. The next statement stands later in this order, so going from statement to statement comes to an end. On the
way it goes through the rest of the list that a statement stands in, then through the rest of each list around that
one, then through the following lines. -/

namespace LineBasic

/-- The order of the text: by ascending line, from left to right within a line. -/
def Cursor.Before (a b : Cursor) : Prop :=
  (∃ m n, a.line = some m ∧ b.line = some n ∧ m < n) ∨ a.line = b.line ∧ a.path < b.path

theorem Cursor.Before.trans {a b c : Cursor} (h : a.Before b) (h' : b.Before c) : a.Before c := by
  rcases h with ⟨m, n, hm, hn, hlt⟩ | ⟨hline, hpath⟩
  · rcases h' with ⟨n', k, hn', hk, hlt'⟩ | ⟨hline', -⟩
    · obtain rfl := Option.some.inj (hn.symm.trans hn')
      exact .inl ⟨m, k, hm, hk, Nat.lt_trans hlt hlt'⟩
    · exact .inl ⟨m, n, hm, hline' ▸ hn, hlt⟩
  · rcases h' with ⟨n, k, hn, hk, hlt⟩ | ⟨hline', hpath'⟩
    · exact .inl ⟨n, k, hline ▸ hn, hk, hlt⟩
    · exact .inr ⟨hline.trans hline', List.lt_trans hpath hpath'⟩

theorem Cursor.Before.ne {a b : Cursor} (h : a.Before b) : a ≠ b := by
  rintro rfl
  rcases h with ⟨m, n, hm, hn, hlt⟩ | ⟨-, hpath⟩
  · obtain rfl := Option.some.inj (hm.symm.trans hn)
    exact Nat.lt_irrefl m hlt
  · exact List.lt_irrefl a.path hpath

section Paths

/-- The next path is that of the statement behind the one that the path stands at, or behind an IF that the path
goes through. -/
theorem exists_split_of_nextPath? {holds : List Nat → Bool} {reversed next : List Nat}
    (h : nextPath? holds reversed = some next) :
    holds next = true ∧
      ∃ front index more, reversed.reverse = front ++ index :: more ∧ next.reverse = front ++ [index + 1] := by
  induction reversed using nextPath?.induct holds with
  | case1 => cases h
  | case2 index hholds | case4 index outer hholds | case6 index branch outer rest hholds =>
      rw [nextPath?, if_pos hholds] at h
      cases h
      exact ⟨hholds, _, index, [], List.reverse_cons, List.reverse_cons⟩
  | case3 index hholds | case5 index outer hholds =>
      rw [nextPath?, if_neg hholds] at h
      cases h
  | case7 index branch outer rest hholds ih =>
      rw [nextPath?, if_neg hholds] at h
      obtain ⟨hnext, front, last, more, hpath, hfound⟩ := ih h
      refine ⟨hnext, front, last, more ++ [branch, index], ?_, hfound⟩
      rw [List.reverse_cons, List.reverse_cons, hpath]
      simp

/-- Going on behind a statement leads further to the right, wherever the path went on inside it. -/
theorem path_lt_of_split (front more : List Nat) (index : Nat) : front ++ index :: more < front ++ [index + 1] :=
  List.append_left_lt (List.cons_lt_cons_iff.mpr (.inl (Nat.lt_succ_self index)))

/-- A list is that of the line itself, or a branch inside another list. -/
theorem front_cases {top list : List Statement} {front : List Nat} (h : listAt? top front = some list) :
    (front = [] ∧ list = top) ∨ ∃ upper index branch, front = upper ++ [index, branch] := by
  induction top, front using listAt?.induct with
  | case1 top => exact .inl ⟨rfl, (Option.some.inj h).symm⟩
  | case2 top index branch rest condition thenList elseList hchoice ih =>
      rw [listAt?, hchoice] at h
      rcases ih h with ⟨rfl, -⟩ | ⟨upper, inner, branch', rfl⟩
      · exact .inr ⟨[], index, branch, rfl⟩
      · exact .inr ⟨index :: branch :: upper, inner, branch', rfl⟩
  | case3 top index branch rest hother =>
      rw [listAt?] at h
      split at h
      · exact absurd ‹_› (hother _ _ _)
      · cases h
  | case4 => cases h

/-- The indices behind an index in a list. -/
def indicesAfter (list : List Statement) (index : Nat) : List Nat :=
  List.range' (index + 1) (list.length - (index + 1))

/-- The paths of the statements that follow the one at a path within a line: the rest of the list it stands in,
then the rest of each list around that one, behind the IF. -/
def pathsAfter : List Statement → List Nat → List (List Nat)
  | list, [index] => (indicesAfter list index).map fun later => [later]
  | list, index :: branch :: rest =>
      match list[index]? with
      | some (.choice _ thenList elseList) =>
          (pathsAfter (if branch = 0 then thenList else elseList) rest).map (index :: branch :: ·) ++
            (indicesAfter list index).map fun later => [later]
      | _ => []
  | _, [] => []

variable {top list : List Statement} {front : List Nat} {index outer branch : Nat}

theorem indicesAfter_of_lt (h : index + 1 < list.length) :
    indicesAfter list index = (index + 1) :: indicesAfter list (index + 1) := by
  unfold indicesAfter
  rw [show list.length - (index + 1) = (list.length - (index + 1 + 1)) + 1 by omega, List.range'_succ]

theorem indicesAfter_of_le (h : list.length ≤ index + 1) : indicesAfter list index = [] := by
  unfold indicesAfter
  rw [Nat.sub_eq_zero_of_le h, List.range'_zero]

/-- Within a list the statement behind one comes first. -/
theorem pathsAfter_of_lt (h : listAt? top front = some list) (hindex : index + 1 < list.length) :
    pathsAfter top (front ++ [index]) = (front ++ [index + 1]) :: pathsAfter top (front ++ [index + 1]) := by
  induction top, front using listAt?.induct with
  | case1 top =>
      cases h
      rw [List.nil_append, List.nil_append, pathsAfter, pathsAfter, indicesAfter_of_lt hindex, List.map_cons]
  | case2 top outer branch rest condition thenList elseList hchoice ih =>
      rw [listAt?, hchoice] at h
      have hinner := ih h
      simp only [List.cons_append]
      rw [pathsAfter, pathsAfter, hchoice]
      dsimp only
      rw [hinner, List.map_cons, List.cons_append]
  | case3 top outer branch rest hother =>
      rw [listAt?] at h
      split at h
      · exact absurd ‹_› (hother _ _ _)
      · cases h
  | case4 => cases h

/-- Behind the last statement of a branch comes what comes behind its IF. -/
theorem pathsAfter_branch (h : listAt? top (front ++ [outer, branch]) = some list)
    (hindex : list.length ≤ index + 1) :
    pathsAfter top (front ++ [outer, branch] ++ [index]) = pathsAfter top (front ++ [outer]) := by
  induction top, front using listAt?.induct with
  | case1 top =>
      rw [List.nil_append, listAt?] at h
      split at h
      · rename_i condition thenList elseList hchoice
        obtain rfl := Option.some.inj h
        simp only [List.nil_append, List.cons_append]
        rw [pathsAfter, pathsAfter, hchoice]
        dsimp only
        rw [pathsAfter, indicesAfter_of_le hindex, List.map_nil, List.map_nil, List.nil_append]
      · cases h
  | case2 top index' inner rest condition thenList elseList hchoice ih =>
      rw [List.cons_append, List.cons_append, listAt?, hchoice] at h
      have hinner := ih h
      simp only [List.cons_append] at hinner ⊢
      rw [pathsAfter, pathsAfter, hchoice]
      dsimp only
      rw [hinner]
  | case3 top index' inner rest hother =>
      rw [List.cons_append, List.cons_append, listAt?] at h
      split at h
      · exact absurd ‹_› (hother _ _ _)
      · cases h
  | case4 =>
      rw [List.singleton_append, listAt?] at h
      split at h <;> cases h

end Paths

namespace Program

/-- Going from statement to statement, from a cursor on, passes these cursors and then ends. -/
inductive Visits (program : Program) : Option Cursor → List Cursor → Prop
  | done : Visits program none []
  | visit {cursor : Cursor} {rest : List Cursor} (h : Visits program (program.advance? cursor) rest) :
      Visits program (some cursor) (cursor :: rest)

/-- The statements of lines, without those inside IF. -/
def lineCursors (entries : List (Nat × List Statement)) : List Cursor :=
  entries.flatMap fun entry => (List.range entry.2.length).map fun index => ⟨some entry.1, [index]⟩

/-- The statements that follow the one under a cursor: those of its line, then those of the following lines. -/
def upcoming (program : Program) (cursor : Cursor) : List Cursor :=
  ((program.statementsOf? cursor.line).elim [] fun top => pathsAfter top cursor.path).map (⟨cursor.line, ·⟩) ++
    cursor.line.elim [] fun number => lineCursors (program.lines.entries.filter (number < ·.1))

variable {program : Program} {cursor next : Cursor} {line : Option Nat} {top list : List Statement}
  {front : List Nat} {index : Nat}

theorem upcoming_eq (htop : program.statementsOf? line = some top) (path : List Nat) :
    program.upcoming ⟨line, path⟩ = (pathsAfter top path).map (⟨line, ·⟩) ++
      line.elim [] fun number => lineCursors (program.lines.entries.filter (number < ·.1)) := by
  rw [upcoming, htop, Option.elim_some]

/-- **The next statement is there, and it stands later in the text.** -/
theorem before_of_advance? (hfilled : ∀ entry ∈ program.lines.entries, entry.2 ≠ [])
    (h : program.advance? cursor = some next) : (program.statement? next).isSome ∧ cursor.Before next := by
  obtain ⟨line, path⟩ := cursor
  unfold advance? at h
  dsimp only at h
  cases hpath : nextPath? (fun path => (program.statement? ⟨line, path.reverse⟩).isSome) path.reverse with
  | some reversed =>
      rw [hpath] at h
      obtain rfl := Option.some.inj h
      obtain ⟨hholds, front, index, more, hfront, hnext⟩ := exists_split_of_nextPath? hpath
      rw [List.reverse_reverse] at hfront
      refine ⟨hholds, .inr ⟨rfl, ?_⟩⟩
      dsimp only
      rw [hfront, hnext]
      exact path_lt_of_split front more index
  | none =>
      rw [hpath] at h
      obtain ⟨number, hline, h⟩ := Option.bind_eq_some_iff.mp h
      obtain ⟨following, hfollowing, hnext⟩ := Option.bind_eq_some_iff.mp h
      obtain rfl := Option.some.inj hnext
      obtain ⟨entry, hfound, rfl⟩ := Option.map_eq_some_iff.mp hfollowing
      have hlater : number < entry.1 := by simpa using List.find?_some hfound
      have hmem := List.mem_of_find?_eq_some hfound
      obtain ⟨first, rest, hfirst⟩ := List.exists_cons_of_ne_nil (hfilled entry hmem)
      have hlines : program.statementsOf? (some entry.1) = some (first :: rest) :=
        hfirst ▸ Numbered.mem_entries_iff.mp hmem
      refine ⟨?_, .inl ⟨number, entry.1, hline, rfl, hlater⟩⟩
      rw [statement?, Cursor.start, hlines]
      rfl

/-- The first statement of a line, and what follows it, are the statements of that line and of those after it. -/
theorem cons_upcoming_start {number : Nat} (hlist : program.lines.get? number = some list) (hsome : list ≠ []) :
    .start (some number) :: program.upcoming (.start (some number)) =
      lineCursors ((number, list) :: program.lines.entries.filter (number < ·.1)) := by
  have htop : program.statementsOf? (some number) = some list := hlist
  have hlength : list.length = (list.length - 1) + 1 := by
    have := List.length_pos_of_ne_nil hsome
    omega
  rw [Cursor.start, upcoming_eq htop, pathsAfter, indicesAfter, lineCursors, List.flatMap_cons, List.range_eq_range',
    hlength, List.range'_succ, List.map_cons, List.map_map, List.cons_append]
  simp [lineCursors]

/-- **What follows a statement is the next one and what follows that.** -/
theorem upcoming_of_listAt? (hfilled : ∀ entry ∈ program.lines.entries, entry.2 ≠ [])
    (htop : program.statementsOf? line = some top) (hlist : listAt? top front = some list)
    (hindex : index < list.length) :
    program.upcoming ⟨line, front ++ [index]⟩ =
      (program.advance? ⟨line, front ++ [index]⟩).elim [] fun next => next :: program.upcoming next := by
  -- The induction is on how deep in branches the list stands.
  induction hlength : front.length using Nat.strongRecOn generalizing front list index with
  | ind depth ih =>
      by_cases hnext : index + 1 < list.length
      · have hsome : (program.statement? ⟨line, front ++ [index + 1]⟩).isSome := by
          rw [statement?_of_listAt? htop hlist, List.getElem?_eq_getElem hnext, Option.isSome_some]
        rw [advance?_of_isSome hsome, Option.elim_some, upcoming_eq htop, upcoming_eq htop,
          pathsAfter_of_lt hlist hnext, List.map_cons, List.cons_append]
      · have hnone : program.statement? ⟨line, front ++ [index + 1]⟩ = none := by
          rw [statement?_of_listAt? htop hlist, List.getElem?_eq_none (Nat.le_of_not_lt hnext)]
        rcases front_cases hlist with ⟨rfl, rfl⟩ | ⟨outerFront, outer, branch, rfl⟩
        · -- Behind the last statement of a line comes the following line.
          rw [List.nil_append] at hnone ⊢
          have hrest : pathsAfter list [index] = [] := by
            rw [pathsAfter, indicesAfter_of_le (Nat.le_of_not_lt hnext), List.map_nil]
          rw [upcoming_eq htop, hrest, List.map_nil, List.nil_append]
          cases line with
          | none => rw [advance?_direct hnone, Option.elim_none, Option.elim_none]
          | some number =>
              rw [advance?_line hnone, Option.elim_some]
              cases hfollowing : program.lines.after? number with
              | none =>
                  have hlast : program.lines.entries.filter (number < ·.1) = [] := by
                    rw [List.filter_eq_nil_iff]
                    exact List.find?_eq_none.mp (Option.map_eq_none_iff.mp hfollowing)
                  rw [hlast, Option.map_none, Option.elim_none]
                  rfl
              | some following =>
                  obtain ⟨later, hlater, hfilter⟩ := exists_following hfollowing
                  rw [hfilter, Option.map_some, Option.elim_some,
                    cons_upcoming_start hlater (hfilled _ (Numbered.mem_entries_iff.mpr hlater))]
        · -- Behind the last statement of a branch comes what comes behind its IF.
          obtain ⟨upper, condition, thenList, elseList, hupper, hchoice, -⟩ := exists_choice hlist
          have houter := (List.getElem?_eq_some_iff.mp hchoice).1
          rw [advance?_branch hnone, upcoming_eq htop, pathsAfter_branch hlist (Nat.le_of_not_lt hnext),
            ← upcoming_eq htop]
          exact ih _ (by simp [← hlength]) hupper houter rfl

theorem upcoming_eq_elim (hfilled : ∀ entry ∈ program.lines.entries, entry.2 ≠ [])
    (hs : (program.statement? cursor).isSome) :
    program.upcoming cursor =
      (program.advance? cursor).elim [] fun next => next :: program.upcoming next := by
  obtain ⟨line, path⟩ := cursor
  obtain ⟨s, hs⟩ := Option.isSome_iff_exists.mp hs
  obtain ⟨top, htop, hat⟩ := Option.bind_eq_some_iff.mp hs
  obtain ⟨front, index, list, rfl, hlist, hindex⟩ := exists_listAt? hat
  exact upcoming_of_listAt? hfilled htop hlist (List.getElem?_eq_some_iff.mp hindex).1

/-- Going on from a statement passes what follows it, and ends. -/
theorem visits_upcoming (hfilled : ∀ entry ∈ program.lines.entries, entry.2 ≠ [])
    (hs : (program.statement? cursor).isSome) :
    program.Visits (program.advance? cursor) (program.upcoming cursor) := by
  generalize hrest : program.upcoming cursor = rest
  induction rest generalizing cursor with
  | nil =>
      rw [upcoming_eq_elim hfilled hs] at hrest
      cases hnext : program.advance? cursor with
      | none => exact .done
      | some next =>
          rw [hnext] at hrest
          cases hrest
  | cons first rest ih =>
      rw [upcoming_eq_elim hfilled hs] at hrest
      cases hnext : program.advance? cursor with
      | none =>
          rw [hnext] at hrest
          cases hrest
      | some next =>
          rw [hnext, Option.elim_some] at hrest
          obtain ⟨rfl, hmore⟩ := List.cons.inj hrest
          exact .visit (ih (before_of_advance? hfilled hnext).1 hmore)

/-- Going on from any cursor comes to an end, also where no statement stands under it. -/
theorem exists_visits (hfilled : ∀ entry ∈ program.lines.entries, entry.2 ≠ []) (cursor : Cursor) :
    ∃ visited, program.Visits (program.advance? cursor) visited := by
  cases hnext : program.advance? cursor with
  | none => exact ⟨[], .done⟩
  | some next => exact ⟨_, .visit (visits_upcoming hfilled (before_of_advance? hfilled hnext).1)⟩

/-- What is passed stands in the order of the text, behind the cursor that is gone on from. -/
theorem Visits.ascending (hfilled : ∀ entry ∈ program.lines.entries, entry.2 ≠ []) {start : Option Cursor}
    {visited : List Cursor} (h : program.Visits start visited) :
    visited.Pairwise Cursor.Before ∧
      ∀ cursor, program.advance? cursor = start → ∀ later ∈ visited, cursor.Before later := by
  induction h with
  | done => exact ⟨.nil, fun _ _ _ hlater => absurd hlater List.not_mem_nil⟩
  | @visit passed rest _ ih =>
      refine ⟨List.pairwise_cons.mpr ⟨ih.2 passed rfl, ih.1⟩, fun cursor hcursor later hlater => ?_⟩
      have hbefore := (before_of_advance? hfilled hcursor).2
      rcases List.mem_cons.mp hlater with rfl | hlater
      · exact hbefore
      · exact hbefore.trans (ih.2 passed rfl later hlater)

/-- From the first line on every statement of every line is passed, but for those inside IF. -/
theorem visits_lineCursors (hfilled : ∀ entry ∈ program.lines.entries, entry.2 ≠ []) :
    program.Visits program.firstCursor? (lineCursors program.lines.entries) := by
  cases hentries : program.lines.entries with
  | nil =>
      rw [firstCursor?, Numbered.first?, hentries]
      exact .done
  | cons entry rest =>
      obtain ⟨number, list⟩ := entry
      have hsplit : program.lines.entries = [] ++ (number, list) :: rest := hentries
      have hlist := Numbered.get?_of_split hsplit
      have hsome : list ≠ [] := hfilled _ (Numbered.mem_entries_iff.mpr hlist)
      have hrest : program.lines.entries.filter (number < ·.1) = rest := by
        rw [hentries, List.filter_cons_of_neg (by simp)]
        exact List.filter_eq_self.mpr fun later hlater => decide_eq_true ((Numbered.lt_of_split hsplit).2 later hlater)
      have hstatement : (program.statement? (.start (some number))).isSome := by
        obtain ⟨first, more, rfl⟩ := List.exists_cons_of_ne_nil hsome
        rw [statement?, Cursor.start, show program.statementsOf? (some number) = some (first :: more) from hlist]
        rfl
      have hvisits := Visits.visit (visits_upcoming hfilled hstatement)
      rw [cons_upcoming_start hlist hsome, hrest] at hvisits
      rw [firstCursor?, Numbered.first?, hentries]
      exact hvisits

theorem mem_lineCursors :
    cursor ∈ lineCursors program.lines.entries ↔
      (∃ number index, cursor = ⟨some number, [index]⟩) ∧ (program.statement? cursor).isSome := by
  have hstatement : ∀ number index, (program.statement? ⟨some number, [index]⟩).isSome ↔
      ∃ list, (number, list) ∈ program.lines.entries ∧ index < list.length := by
    intro number index
    rw [Option.isSome_iff_exists]
    simp only [Numbered.mem_entries_iff, statement?, statementsOf?, statementAt?, Option.bind_eq_bind,
      Option.bind_eq_some_iff, List.getElem?_eq_some_iff]
    grind
  simp only [lineCursors, List.mem_flatMap, List.mem_map, List.mem_range]
  constructor
  · rintro ⟨⟨number, list⟩, hentry, index, hindex, rfl⟩
    exact ⟨⟨number, index, rfl⟩, (hstatement number index).mpr ⟨list, hentry, hindex⟩⟩
  · rintro ⟨⟨number, index, rfl⟩, hsome⟩
    obtain ⟨list, hentry, hindex⟩ := (hstatement number index).mp hsome
    exact ⟨(number, list), hentry, index, hindex, rfl⟩

/-- **The next statement stands later in the text, and none is left out.** In a program without empty lines the
statement after any cursor is there and stands behind it, so going from statement to statement ends. From the first
line on it passes each statement outside IF once, in the order of the text. From a statement inside branches it
passes the rest of its list, then the rest of each list around that behind the IF, then the following lines. -/
theorem advance_runs_through_text (hfilled : ∀ entry ∈ program.lines.entries, entry.2 ≠ []) :
    (∀ cursor next, program.advance? cursor = some next →
      (program.statement? next).isSome ∧ cursor.Before next) ∧
    (∀ cursor, ∃ visited, program.Visits (program.advance? cursor) visited ∧ visited.Pairwise Cursor.Before) ∧
    (∃ visited, program.Visits program.firstCursor? visited ∧ visited.Pairwise Cursor.Before ∧ visited.Nodup ∧
      ∀ cursor, cursor ∈ visited ↔
        (∃ number index, cursor = ⟨some number, [index]⟩) ∧ (program.statement? cursor).isSome) ∧
    ∀ cursor, (program.statement? cursor).isSome →
      program.Visits (program.advance? cursor) (program.upcoming cursor) := by
  refine ⟨fun cursor next => before_of_advance? hfilled, fun cursor => ?_, ?_, fun cursor => visits_upcoming hfilled⟩
  · obtain ⟨visited, hvisits⟩ := exists_visits hfilled cursor
    exact ⟨visited, hvisits, (hvisits.ascending hfilled).1⟩
  · have hvisits := visits_lineCursors hfilled
    have hascending := (hvisits.ascending hfilled).1
    exact ⟨_, hvisits, hascending, hascending.imp Cursor.Before.ne, fun cursor => mem_lineCursors⟩

/-- A line with an IF inside an IF, and a line after it. -/
def nestedBranches : Program :=
  (({} : Program).insert ⟨some 10,
    [.choice (.int 1) [.choice (.int 1) [.command .beep, .command .clearScreen] [], .command .beep] [.command .stop],
      .command .clearScreen]⟩).insert ⟨some 20, [.command .finish]⟩

theorem advance_runs_through_text_nestedBranches :
    (∀ entry ∈ nestedBranches.lines.entries, entry.2 ≠ []) ∧
      nestedBranches.Visits (nestedBranches.advance? ⟨some 10, [0, 0, 0, 0, 0]⟩)
        [⟨some 10, [0, 0, 0, 0, 1]⟩, ⟨some 10, [0, 0, 1]⟩, ⟨some 10, [1]⟩, ⟨some 20, [0]⟩] :=
  ⟨by decide, (advance_runs_through_text (by decide)).2.2.2 _ (by decide)⟩

end Program

end LineBasic
