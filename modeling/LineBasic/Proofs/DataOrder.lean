import LineBasic.Proofs.Position
import Mathlib.Data.List.Basic

/-! The DATA items of a program in the order of its text. An item has a place: its line, the path of
its statement in the line and its index in the statement. The items are gathered by ascending place,
and none is left out, however deep in branches its statement stands. -/

namespace LineBasic

theorem Numbered.mem_entries_iff {β : Type} {numbered : Numbered β} {number : Nat} {value : β} :
    (number, value) ∈ numbered.entries ↔ numbered.get? number = some value := by
  constructor
  · intro hmem
    obtain ⟨lower, upper, hsplit⟩ := List.append_of_mem hmem
    exact get?_of_split hsplit
  · intro hget
    obtain ⟨lower, upper, hsplit, -⟩ := List.lookup_eq_some_iff.mp hget
    rw [hsplit]
    exact List.mem_append_right lower List.mem_cons_self

/-- Whether a path enters THEN or ELSE, and nothing else, at each IF on its way. -/
def IsPath : List Nat → Prop
  | _ :: branch :: rest => branch ≤ 1 ∧ IsPath rest
  | _ => True

namespace Statement

mutual

/-- The commands of a statement from left to right, each with the path from the statement to it. -/
def placed : Statement → List (List Nat × Command)
  | command c => [([], c)]
  | choice _ thenList elseList =>
      (placedAll 0 thenList).map (Prod.map (0 :: ·) id) ++
        (placedAll 0 elseList).map (Prod.map (1 :: ·) id)

/-- The commands of a statement list from left to right, each with its path, where the first statement
has an index. -/
def placedAll (index : Nat) : List Statement → List (List Nat × Command)
  | [] => []
  | statement :: rest =>
      statement.placed.map (Prod.map (index :: ·) id) ++ placedAll (index + 1) rest

end

mutual

theorem map_snd_placed (statement : Statement) :
    statement.placed.map Prod.snd = statement.commands := by
  cases statement with
  | command c => rfl
  | choice condition thenList elseList =>
      rw [placed, commands, List.map_append, List.map_map, List.map_map]
      exact congrArg₂ (· ++ ·) (map_snd_placedAll 0 thenList) (map_snd_placedAll 0 elseList)

theorem map_snd_placedAll (index : Nat) (list : List Statement) :
    (placedAll index list).map Prod.snd = commandsOfAll list := by
  cases list with
  | nil => rfl
  | cons statement rest =>
      rw [placedAll, commandsOfAll, List.map_append, List.map_map]
      exact congrArg₂ (· ++ ·) (map_snd_placed statement) (map_snd_placedAll (index + 1) rest)

end

variable {list : List Statement} {path : List Nat} {c : Command}

theorem mem_placedAll {index : Nat} :
    (path, c) ∈ placedAll index list ↔
      ∃ offset below statement, path = (index + offset) :: below ∧
        list[offset]? = some statement ∧ (below, c) ∈ statement.placed := by
  induction list generalizing index with
  | nil => simp [placedAll]
  | cons statement rest ih =>
      rw [placedAll, List.mem_append, ih]
      constructor
      · rintro (h | ⟨offset, below, found, rfl, hfound, hmem⟩)
        · obtain ⟨⟨below, c'⟩, hmem, heq⟩ := List.mem_map.mp h
          cases heq
          exact ⟨0, below, statement, rfl, rfl, hmem⟩
        · exact ⟨offset + 1, below, found, by rw [Nat.add_right_comm, Nat.add_assoc], hfound, hmem⟩
      · rintro ⟨offset, below, found, rfl, hfound, hmem⟩
        cases offset with
        | zero =>
            cases hfound
            exact .inl (List.mem_map.mpr ⟨(below, c), hmem, rfl⟩)
        | succ offset =>
            exact .inr ⟨offset, below, found, by rw [Nat.add_right_comm, Nat.add_assoc], hfound, hmem⟩

theorem mem_placed_command {below : List Nat} {c' : Command} :
    (below, c) ∈ (command c').placed ↔ below = [] ∧ c = c' := by
  simp [placed]

theorem mem_placed_choice {below : List Nat} {condition : Expr} {thenList elseList : List Statement} :
    (below, c) ∈ (choice condition thenList elseList).placed ↔
      ∃ branch rest, below = branch :: rest ∧ branch ≤ 1 ∧
        (rest, c) ∈ placedAll 0 (if branch = 0 then thenList else elseList) := by
  rw [placed, List.mem_append, List.mem_map, List.mem_map]
  constructor
  · rintro (⟨⟨rest, c'⟩, hmem, heq⟩ | ⟨⟨rest, c'⟩, hmem, heq⟩)
    · cases heq
      exact ⟨0, rest, rfl, Nat.zero_le 1, hmem⟩
    · cases heq
      exact ⟨1, rest, rfl, Nat.le_refl 1, hmem⟩
  · rintro ⟨branch, rest, rfl, hbranch, hmem⟩
    obtain rfl | rfl : branch = 0 ∨ branch = 1 := by omega
    · exact .inl ⟨(rest, c), hmem, rfl⟩
    · exact .inr ⟨(rest, c), hmem, rfl⟩

theorem cons_mem_placedAll_zero {index : Nat} {below : List Nat} :
    (index :: below, c) ∈ placedAll 0 list ↔
      ∃ statement, list[index]? = some statement ∧ (below, c) ∈ statement.placed := by
  rw [mem_placedAll]
  constructor
  · rintro ⟨offset, below', statement, heq, hstatement, hmem⟩
    rw [Nat.zero_add] at heq
    cases heq
    exact ⟨statement, hstatement, hmem⟩
  · rintro ⟨statement, hstatement, hmem⟩
    exact ⟨index, below, statement, by rw [Nat.zero_add], hstatement, hmem⟩

/-- The placed commands of a line are those that a path leads to. -/
theorem mem_placedAll_zero :
    (path, c) ∈ placedAll 0 list ↔ IsPath path ∧ statementAt? list path = some (.command c) := by
  induction list, path using statementAt?.induct with
  | case1 list index =>
      rw [cons_mem_placedAll_zero, statementAt?]
      constructor
      · rintro ⟨statement, hstatement, hmem⟩
        cases statement with
        | command c' =>
            obtain ⟨-, rfl⟩ := mem_placed_command.mp hmem
            exact ⟨trivial, hstatement⟩
        | choice condition thenList elseList =>
            obtain ⟨branch, rest, heq, -⟩ := mem_placed_choice.mp hmem
            cases heq
      · rintro ⟨-, hstatement⟩
        exact ⟨.command c, hstatement, mem_placed_command.mpr ⟨rfl, rfl⟩⟩
  | case2 list index branch rest condition thenList elseList hchoice ih =>
      rw [cons_mem_placedAll_zero, statementAt?, hchoice, IsPath, and_assoc]
      dsimp only
      rw [← ih]
      constructor
      · rintro ⟨statement, hstatement, hmem⟩
        cases hstatement
        obtain ⟨branch', rest', heq, hbranch, hmem⟩ := mem_placed_choice.mp hmem
        cases heq
        exact ⟨hbranch, hmem⟩
      · rintro ⟨hbranch, hmem⟩
        exact ⟨_, rfl, mem_placed_choice.mpr ⟨branch, rest, rfl, hbranch, hmem⟩⟩
  | case3 list index branch rest hother =>
      have hnone : statementAt? list (index :: branch :: rest) = none := by
        rw [statementAt?]
        split
        · exact absurd ‹_› (hother _ _ _)
        · rfl
      rw [cons_mem_placedAll_zero, hnone]
      constructor
      · rintro ⟨statement, hstatement, hmem⟩
        cases statement with
        | command c' =>
            obtain ⟨heq, -⟩ := mem_placed_command.mp hmem
            cases heq
        | choice condition thenList elseList => exact absurd hstatement (hother _ _ _)
      · rintro ⟨-, hsome⟩
        cases hsome
  | case4 list =>
      rw [mem_placedAll, statementAt?]
      constructor
      · rintro ⟨_, _, _, heq, -⟩
        cases heq
      · rintro ⟨-, hsome⟩
        cases hsome

theorem lt_of_mem_placed {index later : Nat} {statement : Statement}
    {first second : List Nat × Command} (hlt : index < later)
    (hfirst : first ∈ statement.placed.map (Prod.map (index :: ·) id))
    (hsecond : second ∈ placedAll later list) : first.1 < second.1 := by
  obtain ⟨below, -, rfl⟩ := List.mem_map.mp hfirst
  obtain ⟨offset, rest, -, hpath, -⟩ := mem_placedAll.mp hsecond
  rw [hpath]
  exact List.cons_lt_cons_iff.mpr (.inl (by omega))

/-- Paths that go on from a common start are in the order of what follows it. -/
theorem pairwise_map_cons {placed : List (List Nat × Command)} (index : Nat)
    (h : placed.Pairwise fun a b => a.1 < b.1) :
    (placed.map (Prod.map (index :: ·) id)).Pairwise fun a b => a.1 < b.1 := by
  apply List.pairwise_map.mpr
  exact h.imp fun hlt => List.cons_lt_cons_iff.mpr (.inr ⟨rfl, hlt⟩)

mutual

/-- From left to right the paths of commands ascend: THEN comes before ELSE. -/
theorem placed_ascending (statement : Statement) :
    statement.placed.Pairwise fun a b => a.1 < b.1 := by
  cases statement with
  | command c => exact List.pairwise_singleton _ _
  | choice condition thenList elseList =>
      rw [placed, List.pairwise_append]
      refine ⟨pairwise_map_cons 0 (placedAll_ascending 0 thenList),
        pairwise_map_cons 1 (placedAll_ascending 0 elseList), ?_⟩
      intro first hfirst second hsecond
      obtain ⟨below, -, rfl⟩ := List.mem_map.mp hfirst
      obtain ⟨below', -, rfl⟩ := List.mem_map.mp hsecond
      exact List.cons_lt_cons_iff.mpr (.inl Nat.zero_lt_one)

theorem placedAll_ascending (index : Nat) (list : List Statement) :
    (placedAll index list).Pairwise fun a b => a.1 < b.1 := by
  cases list with
  | nil => exact .nil
  | cons statement rest =>
      rw [placedAll, List.pairwise_append]
      refine ⟨pairwise_map_cons index (placed_ascending statement),
        placedAll_ascending (index + 1) rest, ?_⟩
      intro first hfirst second hsecond
      exact lt_of_mem_placed (Nat.lt_succ_self index) hfirst hsecond

end

end Statement

/-- The items of a DATA command. -/
def Command.items : Command → List Datum
  | data items => items
  | _ => []

/-- The place of a DATA item: its line, the path of its statement in the line, and its index in the
statement. -/
structure Place where
  line : Nat
  path : List Nat
  index : Nat

/-- The order of the text: by ascending line, from left to right within a line. -/
def Place.Before (a b : Place) : Prop :=
  a.line < b.line ∨
    a.line = b.line ∧ (a.path < b.path ∨ a.path = b.path ∧ a.index < b.index)

namespace Program

open Statement

variable (program : Program)

/-- The DATA item at a place. -/
def itemAt? (place : Place) : Option DataItem :=
  match program.statement? ⟨some place.line, place.path⟩ with
  | some (.command c) => c.items[place.index]?.map fun datum => ⟨place.line, datum⟩
  | _ => none

/-- The DATA items of a program in the order of its text, each with its place. -/
def placedData : List (Place × DataItem) :=
  program.lines.entries.flatMap fun entry =>
    (placedAll 0 entry.2).flatMap fun placed =>
      placed.2.items.mapIdx fun index datum =>
        (⟨entry.1, placed.1, index⟩, ⟨entry.1, datum⟩)

/-- The direct line has no items. -/
theorem data_congr {program other : Program} (h : other.lines = program.lines) :
    other.data = program.data := by
  unfold data
  rw [h]

theorem data_eq :
    program.data = program.lines.entries.flatMap fun entry =>
      (commandsOfAll entry.2).flatMap fun c => c.items.map fun datum => ⟨entry.1, datum⟩ := by
  unfold data
  apply List.flatMap_congr
  intro entry _
  apply List.flatMap_congr
  intro c _
  cases c <;> rfl

theorem map_snd_placedData : program.placedData.map Prod.snd = program.data := by
  rw [placedData, data_eq, List.map_flatMap]
  apply List.flatMap_congr
  intro entry _
  rw [List.map_flatMap, ← map_snd_placedAll 0 entry.2, List.flatMap_map]
  apply List.flatMap_congr
  intro placed _
  apply List.ext_getElem
  · simp
  · simp

/-- The items are gathered from every place that has one. -/
theorem mem_placedData {place : Place} {item : DataItem} :
    (place, item) ∈ program.placedData ↔
      IsPath place.path ∧ program.itemAt? place = some item := by
  have hstatement : ∀ (path : List Nat) (next : Statement),
      program.statement? ⟨some place.line, path⟩ = some next ↔
        ∃ list, (place.line, list) ∈ program.lines.entries ∧ statementAt? list path = some next := by
    intro path next
    simp only [Numbered.mem_entries_iff]
    exact Option.bind_eq_some_iff
  rw [placedData, List.mem_flatMap]
  constructor
  · rintro ⟨⟨line, list⟩, hentry, hmem⟩
    obtain ⟨⟨path, c⟩, hplaced, hmem⟩ := List.mem_flatMap.mp hmem
    obtain ⟨index, hindex, heq⟩ := List.mem_mapIdx.mp hmem
    cases heq
    obtain ⟨hpath, hat⟩ := mem_placedAll_zero.mp hplaced
    refine ⟨hpath, ?_⟩
    rw [itemAt?, (hstatement path (.command c)).mpr ⟨list, hentry, hat⟩]
    dsimp only
    rw [List.getElem?_eq_getElem hindex, Option.map_some]
  · rintro ⟨hpath, hitem⟩
    unfold itemAt? at hitem
    split at hitem
    · rename_i c hsome
      obtain ⟨list, hentry, hat⟩ := (hstatement place.path (.command c)).mp hsome
      obtain ⟨datum, hdatum, rfl⟩ := Option.map_eq_some_iff.mp hitem
      obtain ⟨hindex, rfl⟩ := List.getElem?_eq_some_iff.mp hdatum
      refine ⟨(place.line, list), hentry, List.mem_flatMap.mpr ⟨(place.path, c), ?_, ?_⟩⟩
      · exact mem_placedAll_zero.mpr ⟨hpath, hat⟩
      · exact List.mem_mapIdx.mpr ⟨place.index, hindex, rfl⟩
    · cases hitem

/-- The items are gathered in the order of the text. -/
theorem placedData_ascending : program.placedData.Pairwise fun a b => a.1.Before b.1 := by
  rw [placedData, List.pairwise_flatMap]
  constructor
  · intro entry _
    rw [List.pairwise_flatMap]
    constructor
    · intro placed _
      apply List.pairwise_iff_getElem.mpr
      intro i j hi hj hlt
      rw [List.getElem_mapIdx, List.getElem_mapIdx]
      exact .inr ⟨rfl, .inr ⟨rfl, hlt⟩⟩
    · refine (placedAll_ascending 0 entry.2).imp fun {first second} hlt => ?_
      intro a ha b hb
      obtain ⟨i, hi, rfl⟩ := List.mem_mapIdx.mp ha
      obtain ⟨j, hj, rfl⟩ := List.mem_mapIdx.mp hb
      exact .inr ⟨rfl, .inl hlt⟩
  · refine program.lines.ascending.imp fun {first second} hlt => ?_
    intro a ha b hb
    obtain ⟨placed, -, ha⟩ := List.mem_flatMap.mp ha
    obtain ⟨placed', -, hb⟩ := List.mem_flatMap.mp hb
    obtain ⟨i, hi, rfl⟩ := List.mem_mapIdx.mp ha
    obtain ⟨j, hj, rfl⟩ := List.mem_mapIdx.mp hb
    exact .inl hlt

theorem line_of_itemAt? {place : Place} {item : DataItem} (h : program.itemAt? place = some item) :
    item.line = place.line := by
  unfold itemAt? at h
  split at h
  · obtain ⟨datum, -, rfl⟩ := Option.map_eq_some_iff.mp h
    rfl
  · cases h

/-- The lines of the items never descend. -/
theorem data_ascending : program.data.Pairwise fun a b => a.line ≤ b.line := by
  rw [← map_snd_placedData, List.pairwise_map]
  refine program.placedData_ascending.imp_of_mem fun {a b} ha hb hbefore => ?_
  have hline := program.line_of_itemAt? (program.mem_placedData.mp ha).2
  have hline' := program.line_of_itemAt? (program.mem_placedData.mp hb).2
  rw [hline, hline']
  rcases hbefore with hlt | ⟨heq, -⟩
  · exact Nat.le_of_lt hlt
  · exact Nat.le_of_eq heq

/-- The items from the first on that does not stand before a line. -/
theorem drop_findIdx_data (number : Nat) :
    program.data.drop (program.data.findIdx (number ≤ ·.line)) =
      program.data.filter (number ≤ ·.line) := by
  have hascending := program.data_ascending
  generalize program.data = items at hascending
  induction items with
  | nil => rfl
  | cons first rest ih =>
      obtain ⟨hfirst, hrest⟩ := List.pairwise_cons.mp hascending
      by_cases hnumber : number ≤ first.line
      · have hall : ∀ item ∈ first :: rest, decide (number ≤ item.line) = true := by
          intro item hitem
          rcases List.mem_cons.mp hitem with rfl | hitem
          · exact decide_eq_true hnumber
          · exact decide_eq_true (Nat.le_trans hnumber (hfirst item hitem))
        rw [List.filter_eq_self.mpr hall, List.findIdx_cons, decide_eq_true hnumber]
        rfl
      · rw [List.filter_cons_of_neg (by simpa using hnumber), ← ih hrest, List.findIdx_cons,
          decide_eq_false hnumber]
        rfl

end Program

end LineBasic
