import LineBasic.Program.Cursor

/-! Positions in a stored program. Every line of a stored program has a statement, so the start of a
line is a position. A list of statements inside a line has a path that leads to it, and a cursor
moves along such a list, then climbs out of it, then goes to the following line. -/

namespace LineBasic

namespace Numbered

variable {β : Type} {numbered : Numbered β} {lower upper : List (Nat × β)} {number : Nat} {value : β}

theorem lt_of_split (h : numbered.entries = lower ++ (number, value) :: upper) :
    (∀ entry ∈ lower, entry.1 < number) ∧ ∀ entry ∈ upper, number < entry.1 := by
  have hascending := numbered.ascending
  rw [h, List.pairwise_append, List.pairwise_cons] at hascending
  obtain ⟨-, ⟨hupper, -⟩, hlower⟩ := hascending
  exact ⟨fun entry hentry => hlower entry hentry _ List.mem_cons_self, hupper⟩

theorem get?_of_split (h : numbered.entries = lower ++ (number, value) :: upper) :
    numbered.get? number = some value := by
  have hlower : lower.lookup number = none := by
    rw [List.lookup_eq_none_iff]
    intro entry hentry
    have hlt := (lt_of_split h).1 entry hentry
    exact bne_iff_ne.mpr (Nat.ne_of_gt hlt)
  rw [get?, h, List.lookup_append, hlower, List.lookup_cons_self]
  rfl

/-- The number after that of an entry is that of the entry behind it. -/
theorem after?_of_split (h : numbered.entries = lower ++ (number, value) :: upper) :
    numbered.after? number = upper.head?.map (·.1) := by
  have hlower : lower.find? (fun entry => number < entry.1) = none := by
    rw [List.find?_eq_none]
    intro entry hentry
    have hlt := (lt_of_split h).1 entry hentry
    simp only [decide_eq_true_eq]
    omega
  have hupper : upper.find? (fun entry => number < entry.1) = upper.head? := by
    cases upper with
    | nil => rfl
    | cons entry rest =>
        refine List.find?_cons_of_pos ?_
        exact decide_eq_true ((lt_of_split h).2 entry List.mem_cons_self)
  rw [after?, h, List.find?_append, hlower, Option.none_or, List.find?_cons_of_neg (by simp), hupper]

end Numbered

namespace Program

/-- The programs that come about by entering lines and merging programs. -/
inductive Stored : Program → Prop
  | empty (guarded : Bool) : Stored { guarded }
  | insert {program : Program} (line : Line) : Stored program → Stored (program.insert line)
  | merge {program other : Program} : Stored program → Stored other → Stored (program.merge other)

theorem stored_ofBytes (bytes : List UInt8) : (ofBytes bytes).1.Stored := by
  have hlines : ∀ (lines : List Line) (program : Program), program.Stored →
      (lines.foldl Program.insert program).Stored := by
    intro lines
    induction lines with
    | nil => exact fun _ => id
    | cons line rest ih => exact fun program h => ih _ (.insert line h)
  exact hlines _ _ (.empty _)

theorem ne_nil_of_mem_merge {lines other : Numbered (List Statement)}
    (hlines : ∀ entry ∈ lines.entries, entry.2 ≠ [])
    (hother : ∀ entry ∈ other.entries, entry.2 ≠ []) :
    ∀ entry ∈ (lines.merge other).entries, entry.2 ≠ [] := by
  unfold Numbered.merge
  generalize other.entries = added at hother
  induction added generalizing lines with
  | nil => exact hlines
  | cons first rest ih =>
      obtain ⟨hfirst, hrest⟩ := List.forall_mem_cons.mp hother
      refine ih (fun entry hentry => ?_) hrest
      rcases Numbered.mem_place hentry with rfl | hentry
      · exact hfirst
      · exact hlines entry hentry

/-- **No line of a stored program is without statements.** -/
theorem Stored.ne_nil {program : Program} (h : program.Stored) :
    ∀ entry ∈ program.lines.entries, entry.2 ≠ [] := by
  induction h with
  | empty _ => exact fun _ hentry => absurd hentry List.not_mem_nil
  | merge _ _ ih ih' => exact ne_nil_of_mem_merge ih ih'
  | insert line _ ih =>
      unfold Program.insert
      split
      · exact ih
      · split
        · exact fun entry hentry => ih entry (List.mem_filter.mp hentry).1
        · rename_i hline
          intro entry hentry
          rcases Numbered.mem_place hentry with rfl | hentry
          · intro hnil
            exact hline (List.isEmpty_iff.mpr hnil)
          · exact ih entry hentry

end Program

/-- The statement list that a path leads to, from a line's own list on. -/
def listAt? : List Statement → List Nat → Option (List Statement)
  | list, [] => some list
  | list, index :: branch :: rest =>
      match list[index]? with
      | some (.choice _ thenList elseList) =>
          listAt? (if branch = 0 then thenList else elseList) rest
      | _ => none
  | _, [_] => none

theorem statementAt?_of_listAt? {top list : List Statement} {path : List Nat}
    (h : listAt? top path = some list) (index : Nat) :
    statementAt? top (path ++ [index]) = list[index]? := by
  induction top, path using listAt?.induct with
  | case1 top =>
      cases h
      rfl
  | case2 top outer branch rest condition thenList elseList hchoice ih =>
      rw [listAt?, hchoice] at h
      rw [List.cons_append, List.cons_append, statementAt?, hchoice]
      exact ih h
  | case3 top outer branch rest hother =>
      rw [listAt?] at h
      split at h
      · exact absurd ‹_› (hother _ _ _)
      · cases h
  | case4 => cases h

theorem listAt?_branch {top list thenList elseList : List Statement} {path : List Nat} {index : Nat}
    {condition : Expr} (h : listAt? top path = some list)
    (hchoice : list[index]? = some (.choice condition thenList elseList)) (branch : Nat) :
    listAt? top (path ++ [index, branch]) = some (if branch = 0 then thenList else elseList) := by
  induction top, path using listAt?.induct with
  | case1 top =>
      cases h
      rw [List.nil_append, listAt?, hchoice]
      rfl
  | case2 top outer inner rest condition' thenList' elseList' houter ih =>
      rw [listAt?, houter] at h
      rw [List.cons_append, List.cons_append, listAt?, houter]
      exact ih h
  | case3 top outer inner rest hother =>
      rw [listAt?] at h
      split at h
      · exact absurd ‹_› (hother _ _ _)
      · cases h
  | case4 => cases h

namespace Program

variable {program : Program} {line : Option Nat}

theorem statement?_of_listAt? {top list : List Statement} {path : List Nat}
    (htop : program.statementsOf? line = some top) (hlist : listAt? top path = some list) (index : Nat) :
    program.statement? ⟨line, path ++ [index]⟩ = list[index]? := by
  rw [statement?, htop]
  exact statementAt?_of_listAt? hlist index

/-- Within a statement list the next statement comes next. -/
theorem advance?_of_isSome {path : List Nat} {index : Nat}
    (h : (program.statement? ⟨line, path ++ [index + 1]⟩).isSome) :
    program.advance? ⟨line, path ++ [index]⟩ = some ⟨line, path ++ [index + 1]⟩ := by
  have hholds : (program.statement? ⟨line, ((index + 1) :: path.reverse).reverse⟩).isSome := by
    rw [List.reverse_cons, List.reverse_reverse]
    exact h
  unfold advance?
  dsimp only
  rw [List.reverse_append, List.reverse_singleton, List.singleton_append]
  have hnext : nextPath? (fun path => (program.statement? ⟨line, path.reverse⟩).isSome)
      (index :: path.reverse) = some ((index + 1) :: path.reverse) := by
    rcases hpath : path.reverse with _ | ⟨branch, _ | ⟨outer, rest⟩⟩ <;>
      · rw [hpath] at hholds
        rw [nextPath?, if_pos hholds]
  rw [hnext]
  simp

/-- After the last statement of a branch comes what comes after its IF. -/
theorem advance?_branch {path : List Nat} {outer branch index : Nat}
    (h : program.statement? ⟨line, path ++ [outer, branch] ++ [index + 1]⟩ = none) :
    program.advance? ⟨line, path ++ [outer, branch] ++ [index]⟩ =
      program.advance? ⟨line, path ++ [outer]⟩ := by
  have hreverse : (path ++ [outer, branch] ++ [index]).reverse =
      index :: branch :: outer :: path.reverse := by simp
  have hnone : (program.statement?
      ⟨line, ((index + 1) :: branch :: outer :: path.reverse).reverse⟩).isSome = false := by
    have hpath : ((index + 1) :: branch :: outer :: path.reverse).reverse =
        path ++ [outer, branch] ++ [index + 1] := by simp
    rw [hpath, h, Option.isSome_none]
  unfold advance?
  dsimp only
  rw [hreverse, nextPath?, if_neg (by rw [hnone]; decide), List.reverse_append,
    List.reverse_singleton, List.singleton_append]

/-- After the last statement of a line comes the following line. -/
theorem advance?_line {number index : Nat}
    (h : program.statement? ⟨some number, [index + 1]⟩ = none) :
    program.advance? ⟨some number, [index]⟩ =
      (program.lines.after? number).map fun next => .start (some next) := by
  unfold advance?
  dsimp only
  rw [List.reverse_singleton, nextPath?, List.reverse_singleton, if_neg (by rw [h]; decide)]
  change (program.lines.after? number).bind _ = _
  cases program.lines.after? number <;> rfl

/-- After the last statement of the direct line there is none. -/
theorem advance?_direct {index : Nat} (h : program.statement? ⟨none, [index + 1]⟩ = none) :
    program.advance? ⟨none, [index]⟩ = none := by
  unfold advance?
  dsimp only
  rw [List.reverse_singleton, nextPath?, List.reverse_singleton, if_neg (by rw [h]; decide)]
  rfl

end Program

end LineBasic
