import LineBasic.Session.Loops
import LineBasic.Proofs.DataOrder

/-! Searches for the end of a loop. FOR and WHILE that run no times look for the NEXT or WEND that closes them,
statement by statement in execution order, and count the loops that are opened on the way. A search is given
more steps than there are statements ahead of it, so it finds the end of the loop wherever there is one. -/

namespace LineBasic

namespace Statement

/-- What a statement does to a count of open FOR loops: none where it closes more loops than are open. -/
def weighLoops (opened : Nat) : Statement → Option Nat
  | .command (.forLoop _ _ _ _) => some (opened + 1)
  | .command (.next counters) =>
      if max counters.length 1 > opened then none else some (opened - max counters.length 1)
  | _ => some opened

/-- What a statement does to a count of open WHILE loops: none where it closes one more than are open. -/
def weighWhiles (opened : Nat) : Statement → Option Nat
  | .command (.whileLoop _) => some (opened + 1)
  | .command .wend => if opened = 0 then none else some (opened - 1)
  | _ => some opened

/-- No fewer statements are counted than stand in the list itself. -/
theorem length_le_countAll (list : List Statement) : list.length ≤ countAll list := by
  induction list with
  | nil => exact Nat.zero_le _
  | cons first rest ih =>
      have hfirst : 1 ≤ first.count := by
        cases first <;> (unfold count; omega)
      rw [List.length_cons, countAll]
      omega

theorem count_add_le_countAll {list : List Statement} {index : Nat} {s : Statement} (h : list[index]? = some s) :
    s.count + (list.length - (index + 1)) ≤ countAll list := by
  induction list generalizing index with
  | nil => cases h
  | cons first rest ih =>
      rw [List.length_cons, countAll]
      cases index with
      | zero =>
          cases h
          have hrest := length_le_countAll rest
          omega
      | succ index =>
          have hrest := ih h
          omega

end Statement

section Paths

/-- How many statements can follow one another within a line from a path on, without going into branches. -/
def aheadInLine : List Statement → List Nat → Nat
  | list, [index] => list.length - index
  | list, index :: branch :: rest =>
      match list[index]? with
      | some (.choice _ thenList elseList) =>
          aheadInLine (if branch = 0 then thenList else elseList) rest + (list.length - (index + 1))
      | _ => 0
  | _, [] => 0

variable {top list : List Statement} {path : List Nat} {s : Statement}

theorem aheadInLine_le_countAll (list : List Statement) (path : List Nat) :
    aheadInLine list path ≤ Statement.countAll list := by
  induction list, path using aheadInLine.induct with
  | case1 list index =>
      have hlength := Statement.length_le_countAll list
      rw [aheadInLine]
      omega
  | case2 list index branch rest condition thenList elseList hchoice ih =>
      have hcount := Statement.count_add_le_countAll hchoice
      rw [Statement.count] at hcount
      have hbranch : Statement.countAll (if branch = 0 then thenList else elseList) ≤
          Statement.countAll thenList + Statement.countAll elseList := by
        split <;> omega
      rw [aheadInLine, hchoice]
      dsimp only
      omega
  | case3 list index branch rest hother =>
      rw [aheadInLine]
      split
      · exact absurd ‹_› (hother _ _ _)
      · exact Nat.zero_le _
  | case4 list => exact Nat.zero_le _

/-- What lies ahead of a path is what lies ahead in the list that its front leads to, and what comes after that
list. -/
theorem exists_aheadInLine (h : listAt? top path = some list) :
    ∃ outer, ∀ index rest, aheadInLine top (path ++ index :: rest) = aheadInLine list (index :: rest) + outer := by
  induction top, path using listAt?.induct with
  | case1 top =>
      cases h
      exact ⟨0, fun _ _ => rfl⟩
  | case2 top index branch rest condition thenList elseList hchoice ih =>
      rw [listAt?, hchoice] at h
      obtain ⟨outer, houter⟩ := ih h
      refine ⟨outer + (top.length - (index + 1)), fun next more => ?_⟩
      rw [List.cons_append, List.cons_append, aheadInLine, hchoice]
      dsimp only
      rw [houter, Nat.add_assoc]
  | case3 top index branch rest hother =>
      rw [listAt?] at h
      split at h
      · exact absurd ‹_› (hother _ _ _)
      · cases h
  | case4 => cases h

/-- A path to a statement is a path to a list, and an index in that. -/
theorem exists_listAt? (h : statementAt? top path = some s) :
    ∃ front index list, path = front ++ [index] ∧ listAt? top front = some list ∧ list[index]? = some s := by
  induction top, path using statementAt?.induct with
  | case1 top index => exact ⟨[], index, top, rfl, rfl, h⟩
  | case2 top index branch rest condition thenList elseList hchoice ih =>
      rw [statementAt?, hchoice] at h
      obtain ⟨front, last, list, rfl, hlist, hlast⟩ := ih h
      refine ⟨index :: branch :: front, last, list, rfl, ?_, hlast⟩
      rw [listAt?, hchoice]
      exact hlist
  | case3 top index branch rest hother =>
      rw [statementAt?] at h
      split at h
      · exact absurd ‹_› (hother _ _ _)
      · cases h
  | case4 =>
      rw [statementAt?] at h
      cases h

/-- A list inside a line is a branch of an IF. -/
theorem exists_choice {index branch : Nat} (h : listAt? top (path ++ [index, branch]) = some list) :
    ∃ upper condition thenList elseList, listAt? top path = some upper ∧
      upper[index]? = some (.choice condition thenList elseList) ∧
      list = if branch = 0 then thenList else elseList := by
  induction top, path using listAt?.induct with
  | case1 top =>
      rw [List.nil_append, listAt?] at h
      split at h
      · rename_i condition thenList elseList hchoice
        exact ⟨top, condition, thenList, elseList, rfl, hchoice, (Option.some.inj h).symm⟩
      · cases h
  | case2 top outer inner rest condition thenList elseList hchoice ih =>
      rw [List.cons_append, List.cons_append, listAt?, hchoice] at h
      obtain ⟨upper, hupper⟩ := ih h
      refine ⟨upper, ?_⟩
      rw [listAt?, hchoice]
      exact hupper
  | case3 top outer inner rest hother =>
      rw [List.cons_append, List.cons_append, listAt?] at h
      split at h
      · exact absurd ‹_› (hother _ _ _)
      · cases h
  | case4 =>
      rw [List.singleton_append, listAt?] at h
      split at h <;> cases h

/-- A path to a statement, last index first, is an index in the list that the rest leads to. -/
theorem exists_listAt?_reverse {index : Nat} {reversed : List Nat}
    (h : (statementAt? top (index :: reversed).reverse).isSome) :
    ∃ list, listAt? top reversed.reverse = some list ∧ index < list.length := by
  obtain ⟨s, hs⟩ := Option.isSome_iff_exists.mp h
  obtain ⟨front, last, list, hpath, hlist, hat⟩ := exists_listAt? hs
  rw [List.reverse_cons] at hpath
  obtain ⟨hfront, hlast⟩ := List.append_inj' hpath rfl
  obtain rfl := List.singleton_inj.mp hlast
  exact ⟨list, hfront ▸ hlist, (List.getElem?_eq_some_iff.mp hat).1⟩

/-- Behind a statement of a list less lies ahead. -/
theorem aheadInLine_succ_lt {index : Nat} {reversed : List Nat}
    (h : (statementAt? top (index :: reversed).reverse).isSome) :
    aheadInLine top ((index + 1) :: reversed).reverse < aheadInLine top (index :: reversed).reverse := by
  obtain ⟨list, hlist, hlt⟩ := exists_listAt?_reverse h
  obtain ⟨outer, houter⟩ := exists_aheadInLine hlist
  rw [List.reverse_cons, List.reverse_cons, houter, houter, aheadInLine, aheadInLine]
  omega

/-- Where a branch is left no more lies ahead of its IF than of the statement in it. -/
theorem aheadInLine_choice_le {index branch outer : Nat} {reversed : List Nat}
    (h : (statementAt? top (index :: branch :: outer :: reversed).reverse).isSome) :
    (statementAt? top (outer :: reversed).reverse).isSome ∧
      aheadInLine top (outer :: reversed).reverse ≤
        aheadInLine top (index :: branch :: outer :: reversed).reverse := by
  obtain ⟨list, hlist, hlt⟩ := exists_listAt?_reverse h
  have hpath : (branch :: outer :: reversed).reverse = reversed.reverse ++ [outer, branch] := by simp
  rw [hpath] at hlist
  obtain ⟨upper, condition, thenList, elseList, hupper, hchoice, rfl⟩ := exists_choice hlist
  obtain ⟨above, habove⟩ := exists_aheadInLine hupper
  have houter := (List.getElem?_eq_some_iff.mp hchoice).1
  have hwhole : (index :: branch :: outer :: reversed).reverse = reversed.reverse ++ [outer, branch, index] := by
    simp
  refine ⟨?_, ?_⟩
  · rw [List.reverse_cons, statementAt?_of_listAt? hupper, hchoice, Option.isSome_some]
  · rw [List.reverse_cons, hwhole, habove, habove, aheadInLine, aheadInLine, hchoice]
    dsimp only
    rw [aheadInLine]
    omega

/-- The next path in a line leads to a statement that has less ahead of it. -/
theorem aheadInLine_nextPath? {reversed next : List Nat} (hs : (statementAt? top reversed.reverse).isSome)
    (h : nextPath? (fun path => (statementAt? top path.reverse).isSome) reversed = some next) :
    (statementAt? top next.reverse).isSome ∧ aheadInLine top next.reverse < aheadInLine top reversed.reverse := by
  induction reversed using nextPath?.induct (fun path => (statementAt? top path.reverse).isSome) with
  | case1 => cases h
  | case2 _ hholds | case4 _ _ hholds | case6 _ _ _ _ hholds =>
      rw [nextPath?, if_pos hholds] at h
      cases h
      exact ⟨hholds, aheadInLine_succ_lt hs⟩
  | case3 _ hholds | case5 _ _ hholds =>
      rw [nextPath?, if_neg hholds] at h
      cases h
  | case7 index branch outer rest hholds ih =>
      rw [nextPath?, if_neg hholds] at h
      obtain ⟨houter, hle⟩ := aheadInLine_choice_le hs
      obtain ⟨hnext, hlt⟩ := ih houter h
      exact ⟨hnext, Nat.lt_of_lt_of_le hlt hle⟩

end Paths

namespace Program

variable {program : Program} {cursor next : Cursor}

/-- How many statements stand in the lists of entries. -/
def totalLength (entries : List (Nat × List Statement)) : Nat :=
  entries.foldr (fun entry total => entry.2.length + total) 0

/-- How many statements can follow one another from a cursor on, without going into branches. -/
def ahead (program : Program) (cursor : Cursor) : Nat :=
  ((program.statementsOf? cursor.line).elim 0 fun list => aheadInLine list cursor.path) +
    cursor.line.elim 0 fun number => totalLength (program.lines.entries.filter (number < ·.1))

/-- The lines after a line are the following line and the lines after that. -/
theorem exists_following {number following : Nat} (h : program.lines.after? number = some following) :
    ∃ list, program.lines.get? following = some list ∧
      program.lines.entries.filter (number < ·.1) =
        (following, list) :: program.lines.entries.filter (following < ·.1) := by
  obtain ⟨⟨following, list⟩, hfind, rfl⟩ := Option.map_eq_some_iff.mp h
  obtain ⟨hlater, lower, upper, hentries, hlower⟩ := List.find?_eq_some_iff_append.mp hfind
  obtain ⟨hbefore, hafter⟩ := Numbered.lt_of_split hentries
  have hnumber : number < following := of_decide_eq_true hlater
  refine ⟨list, Numbered.get?_of_split hentries, ?_⟩
  have hnone : lower.filter (fun entry => number < entry.1) = [] :=
    List.filter_eq_nil_iff.mpr fun entry hentry => by simpa using hlower entry hentry
  have hnone' : lower.filter (fun entry => following < entry.1) = [] := by
    refine List.filter_eq_nil_iff.mpr fun entry hentry => ?_
    have hlt := hbefore entry hentry
    rw [decide_eq_true_eq]
    omega
  have hall : upper.filter (fun entry => number < entry.1) = upper := by
    refine List.filter_eq_self.mpr fun entry hentry => decide_eq_true ?_
    exact Nat.lt_trans hnumber (hafter entry hentry)
  have hall' : upper.filter (fun entry => following < entry.1) = upper :=
    List.filter_eq_self.mpr fun entry hentry => decide_eq_true (hafter entry hentry)
  rw [hentries, List.filter_append, List.filter_append, hnone, hnone', List.nil_append, List.nil_append,
    List.filter_cons_of_pos (by exact hlater), List.filter_cons_of_neg (by simp), hall, hall']

/-- **The next statement has less ahead of it.** -/
theorem ahead_advance? (hfilled : ∀ entry ∈ program.lines.entries, entry.2 ≠ [])
    (hs : (program.statement? cursor).isSome) (h : program.advance? cursor = some next) :
    (program.statement? next).isSome ∧ program.ahead next < program.ahead cursor := by
  obtain ⟨line, path⟩ := cursor
  obtain ⟨s, hs⟩ := Option.isSome_iff_exists.mp hs
  obtain ⟨top, htop, hat⟩ := Option.bind_eq_some_iff.mp hs
  have hstatement : ∀ path, program.statement? ⟨line, path⟩ = statementAt? top path := by
    intro path
    rw [statement?, htop]
    rfl
  have hsome : (statementAt? top path.reverse.reverse).isSome := by
    rw [List.reverse_reverse]
    exact Option.isSome_iff_exists.mpr ⟨s, hat⟩
  unfold advance? at h
  simp only [hstatement] at h
  cases hpath : nextPath? (fun path => (statementAt? top path.reverse).isSome) path.reverse with
  | some reversed =>
      rw [hpath] at h
      cases h
      obtain ⟨hnext, hlt⟩ := aheadInLine_nextPath? hsome hpath
      rw [List.reverse_reverse] at hlt
      rw [hstatement, ahead, ahead, htop]
      exact ⟨hnext, Nat.add_lt_add_right hlt _⟩
  | none =>
      rw [hpath] at h
      cases line with
      | none => cases h
      | some number =>
          obtain ⟨_, hline, h⟩ := Option.bind_eq_some_iff.mp h
          cases hline
          obtain ⟨following, hfollowing, hnext⟩ := Option.bind_eq_some_iff.mp h
          cases hnext
          obtain ⟨list, hlist, hlater⟩ := exists_following hfollowing
          have htotal : totalLength (program.lines.entries.filter (number < ·.1)) =
              list.length + totalLength (program.lines.entries.filter (following < ·.1)) := by
            rw [hlater]
            rfl
          have hlines : program.statementsOf? (some following) = some list := hlist
          obtain ⟨first, rest, rfl⟩ :=
            List.exists_cons_of_ne_nil (hfilled _ (Numbered.mem_entries_iff.mpr hlist))
          obtain ⟨front, index, inner, rfl, hinner, hindex⟩ := exists_listAt? hat
          obtain ⟨outer, houter⟩ := exists_aheadInLine hinner
          have hlt := (List.getElem?_eq_some_iff.mp hindex).1
          refine ⟨?_, ?_⟩
          · rw [statement?, Cursor.start, hlines]
            rfl
          · rw [ahead, ahead, Cursor.start, hlines, htop, Option.elim_some, Option.elim_some, Option.elim_some,
              Option.elim_some, htotal, houter, aheadInLine, aheadInLine]
            omega

theorem totalLength_le (entries : List (Nat × List Statement)) :
    totalLength entries ≤ entries.foldr (fun entry total => Statement.countAll entry.2 + total) 0 := by
  induction entries with
  | nil => exact Nat.le_refl _
  | cons entry rest ih =>
      have hlength := Statement.length_le_countAll entry.2
      rw [totalLength, List.foldr_cons, List.foldr_cons]
      exact Nat.add_le_add hlength ih

/-- The lines after a line have no more statements than the others together. -/
theorem countAll_add_totalLength_le {number : Nat} {list : List Statement}
    (h : program.lines.get? number = some list) :
    Statement.countAll list + totalLength (program.lines.entries.filter (number < ·.1)) ≤
      program.lines.entries.foldr (fun entry total => Statement.countAll entry.2 + total) 0 := by
  obtain ⟨lower, upper, hentries⟩ := List.append_of_mem (Numbered.mem_entries_iff.mpr h)
  obtain ⟨hbefore, hafter⟩ := Numbered.lt_of_split hentries
  have hnone : lower.filter (fun entry => number < entry.1) = [] := by
    refine List.filter_eq_nil_iff.mpr fun entry hentry => ?_
    have hlt := hbefore entry hentry
    rw [decide_eq_true_eq]
    omega
  have hall : upper.filter (fun entry => number < entry.1) = upper :=
    List.filter_eq_self.mpr fun entry hentry => decide_eq_true (hafter entry hentry)
  rw [hentries, List.filter_append, hnone, List.nil_append, List.filter_cons_of_neg (by simp), hall,
    List.foldr_append, List.foldr_cons]
  have hupper := totalLength_le upper
  have hlower : ∀ total, total ≤ lower.foldr (fun entry total => Statement.countAll entry.2 + total) total := by
    intro total
    clear hentries hbefore hnone
    induction lower with
    | nil => exact Nat.le_refl _
    | cons entry rest ih => exact Nat.le_trans ih (Nat.le_add_left _ _)
  exact Nat.le_trans (Nat.add_le_add_left hupper _) (hlower _)

/-- A search with this many steps passes every statement ahead. -/
theorem ahead_lt_span (hs : (program.statement? cursor).isSome) : program.ahead cursor < program.span := by
  obtain ⟨line, path⟩ := cursor
  obtain ⟨s, hs⟩ := Option.isSome_iff_exists.mp hs
  obtain ⟨top, htop, -⟩ := Option.bind_eq_some_iff.mp hs
  have hline := aheadInLine_le_countAll top path
  rw [ahead, htop, span]
  dsimp only
  cases line with
  | none =>
      cases htop
      rw [Option.elim_some, Option.elim_none]
      omega
  | some number =>
      have hlines := countAll_add_totalLength_le htop
      rw [Option.elim_some, Option.elim_some]
      omega

section Searches

variable {weigh : Nat → Statement → Option Nat} {opened left : Nat} {start : Option Cursor} {close : Cursor}

/-- Goes from statement to statement, with a count, up to one that the count cannot take. Gives the count that was
left and the place of that statement. -/
def search (program : Program) (weigh : Nat → Statement → Option Nat) :
    Nat → Nat → Option Cursor → Option (Nat × Cursor)
  | 0, _, _ => none
  | _, _, none => none
  | span + 1, opened, some cursor =>
      match program.statement? cursor with
      | some s =>
          match weigh opened s with
          | some opened => program.search weigh span opened (program.advance? cursor)
          | none => some (opened, cursor)
      | none => program.search weigh span opened (program.advance? cursor)

/-- From a cursor on, with this count, the statement is found at which the count is the other one. -/
inductive Finds (program : Program) (weigh : Nat → Statement → Option Nat) :
    Nat → Option Cursor → Nat → Cursor → Prop
  | here {opened : Nat} {cursor : Cursor} {s : Statement} (hs : program.statement? cursor = some s)
      (hends : weigh opened s = none) : Finds program weigh opened (some cursor) opened cursor
  | further {opened opened' left : Nat} {cursor close : Cursor} {s : Statement}
      (hs : program.statement? cursor = some s) (hgoes : weigh opened s = some opened')
      (h : Finds program weigh opened' (program.advance? cursor) left close) :
      Finds program weigh opened (some cursor) left close

theorem closingNext?_eq_search (span opened : Nat) (start : Option Cursor) :
    program.closingNext? span opened start =
      (program.search Statement.weighLoops span opened start).map Prod.snd := by
  induction span generalizing opened start with
  | zero => rfl
  | succ span ih =>
      cases start with
      | none => rfl
      | some cursor =>
          rw [closingNext?, search]
          cases program.statement? cursor with
          | none => exact ih _ _
          | some s =>
              cases s with
              | choice => exact ih _ _
              | command c =>
                  cases c with
                  | next counters =>
                      dsimp only [Statement.weighLoops]
                      split
                      · rfl
                      · exact ih _ _
                  | _ => exact ih _ _

theorem closingWend?_eq_search (span opened : Nat) (start : Option Cursor) :
    program.closingWend? span opened start =
      (program.search Statement.weighWhiles span opened start).map Prod.snd := by
  induction span generalizing opened start with
  | zero => rfl
  | succ span ih =>
      cases start with
      | none => rfl
      | some cursor =>
          rw [closingWend?, search]
          cases program.statement? cursor with
          | none => exact ih _ _
          | some s =>
              cases s with
              | choice => exact ih _ _
              | command c =>
                  cases c with
                  | wend =>
                      dsimp only [Statement.weighWhiles]
                      split
                      · rfl
                      · exact ih _ _
                  | _ => exact ih _ _

/-- What a search finds is there to be found. -/
theorem finds_of_search (hfilled : ∀ entry ∈ program.lines.entries, entry.2 ≠ []) {span : Nat}
    (hstart : ∀ cursor ∈ start, (program.statement? cursor).isSome)
    (h : program.search weigh span opened start = some (left, close)) :
    program.Finds weigh opened start left close := by
  induction span generalizing opened start with
  | zero => cases h
  | succ span ih =>
      cases start with
      | none => cases h
      | some cursor =>
          obtain ⟨s, hs⟩ := Option.isSome_iff_exists.mp (hstart cursor rfl)
          rw [search, hs] at h
          dsimp only at h
          cases hweigh : weigh opened s with
          | none =>
              rw [hweigh] at h
              cases h
              exact .here hs hweigh
          | some opened' =>
              rw [hweigh] at h
              exact .further hs hweigh
                (ih (fun next hnext => (ahead_advance? hfilled (hstart cursor rfl) hnext).1) h)

theorem Finds.search (hfilled : ∀ entry ∈ program.lines.entries, entry.2 ≠ [])
    (h : program.Finds weigh opened start left close) {span : Nat}
    (hspan : ∀ cursor ∈ start, program.ahead cursor < span) :
    program.search weigh span opened start = some (left, close) := by
  induction h generalizing span with
  | @here opened cursor s hs hends =>
      have hlt := hspan cursor rfl
      obtain ⟨span, rfl⟩ := Nat.exists_eq_add_one_of_ne_zero (Nat.ne_zero_of_lt hlt)
      rw [Program.search, hs]
      dsimp only
      rw [hends]
  | @further opened opened' left cursor close s hs hgoes _ ih =>
      have hlt := hspan cursor rfl
      obtain ⟨span, rfl⟩ := Nat.exists_eq_add_one_of_ne_zero (Nat.ne_zero_of_lt hlt)
      rw [Program.search, hs]
      dsimp only
      rw [hgoes]
      refine ih fun next hnext => ?_
      have hnext := (ahead_advance? hfilled (Option.isSome_of_eq_some hs) hnext).2
      omega

/-- **A search finds the end wherever there is one.** -/
theorem search_eq_some_iff (hfilled : ∀ entry ∈ program.lines.entries, entry.2 ≠ [])
    (hstart : ∀ cursor ∈ start, (program.statement? cursor).isSome) :
    program.search weigh program.span opened start = some (left, close) ↔
      program.Finds weigh opened start left close :=
  ⟨finds_of_search hfilled hstart, fun hfinds =>
    hfinds.search hfilled fun cursor hcursor => ahead_lt_span (hstart cursor hcursor)⟩

theorem closingNext?_eq_some_iff (hfilled : ∀ entry ∈ program.lines.entries, entry.2 ≠ [])
    (hstart : ∀ cursor ∈ start, (program.statement? cursor).isSome) :
    program.closingNext? program.span opened start = some close ↔
      ∃ left, program.Finds Statement.weighLoops opened start left close := by
  rw [closingNext?_eq_search, Option.map_eq_some_iff]
  constructor
  · rintro ⟨⟨left, _⟩, hfound, rfl⟩
    exact ⟨left, (search_eq_some_iff hfilled hstart).mp hfound⟩
  · rintro ⟨left, hfinds⟩
    exact ⟨(left, close), (search_eq_some_iff hfilled hstart).mpr hfinds, rfl⟩

theorem closingWend?_eq_some_iff (hfilled : ∀ entry ∈ program.lines.entries, entry.2 ≠ [])
    (hstart : ∀ cursor ∈ start, (program.statement? cursor).isSome) :
    program.closingWend? program.span opened start = some close ↔
      ∃ left, program.Finds Statement.weighWhiles opened start left close := by
  rw [closingWend?_eq_search, Option.map_eq_some_iff]
  constructor
  · rintro ⟨⟨left, _⟩, hfound, rfl⟩
    exact ⟨left, (search_eq_some_iff hfilled hstart).mp hfound⟩
  · rintro ⟨left, hfinds⟩
    exact ⟨(left, close), (search_eq_some_iff hfilled hstart).mpr hfinds, rfl⟩

end Searches

end Program

end LineBasic
