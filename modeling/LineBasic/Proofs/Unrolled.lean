import Mathlib.Data.List.Forall2
import LineBasic.Proofs.Nesting
import LineBasic.Proofs.Position

/-! Programs in which some NEXT statements with several counters are written as a NEXT for each counter. A
statement of the one program has its place in the other, where a NEXT that is written out has its first one. From
such places both programs go on to such places, and a FOR that finds its NEXT in the one finds it in the other,
unless that NEXT goes on with counters of further loops. -/

namespace LineBasic

namespace Statement

/-- NEXT with one counter. -/
def nextOf (counter : Name) : Statement := .command (.next [counter])

/-- The second list is the first one, with a NEXT for each counter in place of some NEXT statements that have
several. -/
inductive Splits : List Statement → List Statement → Prop
  | nil : Splits [] []
  | command (c : Command) {rest rest' : List Statement} (h : Splits rest rest') :
      Splits (.command c :: rest) (.command c :: rest')
  | choice (condition : Expr) {thenList thenList' elseList elseList' rest rest' : List Statement}
      (hthen : Splits thenList thenList') (helse : Splits elseList elseList') (h : Splits rest rest') :
      Splits (.choice condition thenList elseList :: rest) (.choice condition thenList' elseList' :: rest')
  | next {counters : List Name} (hlong : 2 ≤ counters.length) {rest rest' : List Statement} (h : Splits rest rest') :
      Splits (.command (.next counters) :: rest) (counters.map nextOf ++ rest')

theorem Splits.refl : ∀ list : List Statement, Splits list list
  | [] => .nil
  | .command c :: rest => .command c (.refl rest)
  | .choice condition thenList elseList :: rest =>
      .choice condition (.refl thenList) (.refl elseList) (.refl rest)

theorem Splits.append {front front' back back' : List Statement} (h : Splits front front') (hback : Splits back back') :
    Splits (front ++ back) (front' ++ back') := by
  induction h with
  | nil => exact hback
  | command c _ ih => exact .command c ih
  | choice condition hthen helse _ _ _ ih => exact .choice condition hthen helse ih
  | next hlong _ ih =>
      rw [List.append_assoc]
      exact .next hlong ih

theorem Splits.eq_nil_iff {list list' : List Statement} (h : Splits list list') : list' = [] ↔ list = [] := by
  cases h with
  | nil => exact Iff.rfl
  | command | choice => simp
  | next hlong _ =>
      refine iff_of_false (fun hnil => ?_) (List.cons_ne_nil _ _)
      have hlength := congrArg List.length (List.append_eq_nil_iff.mp hnil).1
      rw [List.length_map, List.length_nil] at hlength
      omega

/-- Apart from NEXT statements the commands are the same. -/
theorem Splits.flatMap_commands {α : Type} {f : Command → List α} (hf : ∀ counters, f (.next counters) = [])
    {list list' : List Statement} (h : Splits list list') :
    (commandsOfAll list').flatMap f = (commandsOfAll list).flatMap f := by
  have hnone : ∀ (counters : List Name) (rest : List Statement),
      (commandsOfAll (counters.map nextOf ++ rest)).flatMap f = (commandsOfAll rest).flatMap f := by
    intro counters rest
    induction counters with
    | nil => rfl
    | cons counter more ih =>
        rw [List.map_cons, List.cons_append, commandsOfAll, List.flatMap_append, nextOf, commands,
          List.flatMap_singleton, hf, List.nil_append, ih]
  induction h with
  | nil => rfl
  | command c _ ih => rw [commandsOfAll, commandsOfAll, List.flatMap_append, List.flatMap_append, ih, commands]
  | choice condition _ _ _ hthen helse ih =>
      simp only [commandsOfAll, commands, List.flatMap_append, hthen, helse, ih]
  | next _ _ ih =>
      rw [hnone, ih, commandsOfAll, List.flatMap_append, commands, List.flatMap_singleton, hf, List.nil_append]

end Statement

open Statement

section Paths

/-- The lists of two lines that two paths lead to, past the same statements. -/
inductive Beside (top top' : List Statement) : List Nat → List Nat → List Statement → List Statement → Prop
  | line (h : Splits top top') : Beside top top' [] [] top top'
  | branch {front front' : List Nat} {condition : Expr}
      {before before' thenList thenList' elseList elseList' rest rest' : List Statement}
      (h : Beside top top' front front' (before ++ .choice condition thenList elseList :: rest)
        (before' ++ .choice condition thenList' elseList' :: rest'))
      (hbefore : Splits before before') (hthen : Splits thenList thenList') (helse : Splits elseList elseList')
      (hrest : Splits rest rest') (branch : Nat) :
      Beside top top' (front ++ [before.length, branch]) (front' ++ [before'.length, branch])
        (if branch = 0 then thenList else elseList) (if branch = 0 then thenList' else elseList')

variable {top top' list list' : List Statement} {front front' : List Nat}

theorem Beside.splits (h : Beside top top' front front' list list') : Splits list list' := by
  cases h with
  | line h => exact h
  | branch _ _ hthen helse _ branch =>
      split
      · exact hthen
      · exact helse

theorem Beside.listAt? (h : Beside top top' front front' list list') :
    LineBasic.listAt? top front = some list ∧ LineBasic.listAt? top' front' = some list' := by
  induction h with
  | line h => exact ⟨rfl, rfl⟩
  | @branch _ _ condition _ _ _ _ _ _ _ _ _ _ _ _ _ branch ih =>
      have hat : ∀ (before rest : List Statement) (s : Statement), (before ++ s :: rest)[before.length]? = some s := by
        simp
      exact ⟨listAt?_branch ih.1 (hat _ _ _) branch, listAt?_branch ih.2 (hat _ _ _) branch⟩

/-- Two paths are at the top of their lines at the same time. -/
theorem Beside.eq_nil_iff (h : Beside top top' front front' list list') : front' = [] ↔ front = [] := by
  cases h with
  | line _ => exact Iff.rfl
  | branch _ _ _ _ _ _ => simp

end Paths

namespace Program

/-- The second program is the first one, with a NEXT for each counter in place of some NEXT statements that have
several. -/
structure Unrolls (p q : Program) : Prop where
  lines : List.Forall₂ (fun entry other => entry.1 = other.1 ∧ Splits entry.2 other.2) p.lines.entries q.lines.entries
  direct : Splits p.direct q.direct
  guarded : q.guarded = p.guarded

theorem Unrolls.refl (program : Program) : Unrolls program program where
  lines := List.forall₂_same.mpr fun entry _ => ⟨rfl, .refl entry.2⟩
  direct := .refl program.direct
  guarded := rfl

variable {p q : Program} {cursor cursor' : Cursor}

theorem Unrolls.statementsOf? (h : Unrolls p q) (line : Option Nat) :
    Option.Rel Splits (p.statementsOf? line) (q.statementsOf? line) := by
  cases line with
  | none => exact .some h.direct
  | some number =>
      have hlines := h.lines
      unfold Program.statementsOf? Numbered.get?
      dsimp only
      generalize p.lines.entries = entries at hlines ⊢
      generalize q.lines.entries = others at hlines ⊢
      induction hlines with
      | nil => exact .none
      | @cons entry other rest more hfirst _ ih =>
          obtain ⟨first, list⟩ := entry
          obtain ⟨found, list'⟩ := other
          obtain ⟨rfl, hlist⟩ := hfirst
          rw [List.lookup_cons, List.lookup_cons]
          cases number == first with
          | true => exact .some hlist
          | false => exact ih

theorem Unrolls.after? (h : Unrolls p q) (number : Nat) : q.lines.after? number = p.lines.after? number := by
  have hlines := h.lines
  unfold Numbered.after?
  generalize p.lines.entries = entries at hlines ⊢
  generalize q.lines.entries = others at hlines ⊢
  induction hlines with
  | nil => rfl
  | cons hfirst _ ih =>
      rw [List.find?_cons, List.find?_cons, hfirst.1]
      split
      · rw [Option.map_some, Option.map_some, hfirst.1]
      · exact ih

theorem Unrolls.first? (h : Unrolls p q) : q.lines.first? = p.lines.first? := by
  have hlines := h.lines
  unfold Numbered.first?
  generalize p.lines.entries = entries at hlines ⊢
  generalize q.lines.entries = others at hlines ⊢
  cases hlines with
  | nil => rfl
  | cons hfirst _ => exact congrArg some hfirst.1.symm

theorem Unrolls.start (h : Unrolls p q) (number : Nat) : q.start number = p.start number := by
  have hline := h.statementsOf? (some number)
  have hcontains : q.lines.contains number = p.lines.contains number := by
    unfold Program.statementsOf? at hline
    dsimp only at hline
    unfold Numbered.contains
    generalize p.lines.get? number = list at hline ⊢
    generalize q.lines.get? number = list' at hline ⊢
    cases hline <;> rfl
  rw [Program.start, Program.start, hcontains]

theorem flatMap_entries {α : Type} {f : Nat × List Statement → List α} (h : Unrolls p q)
    (hf : ∀ number list list', Splits list list' → f (number, list') = f (number, list)) :
    q.lines.entries.flatMap f = p.lines.entries.flatMap f := by
  have hlines := h.lines
  generalize p.lines.entries = entries at hlines ⊢
  generalize q.lines.entries = others at hlines ⊢
  induction hlines with
  | nil => rfl
  | @cons entry other rest more hfirst _ ih =>
      obtain ⟨number, list⟩ := entry
      obtain ⟨found, list'⟩ := other
      obtain ⟨rfl, hlist⟩ := hfirst
      rw [List.flatMap_cons, List.flatMap_cons, ih, hf number list list' hlist]

theorem Unrolls.data (h : Unrolls p q) : q.data = p.data :=
  flatMap_entries h fun _ _ _ hlist => hlist.flatMap_commands fun _ => rfl

theorem Unrolls.common (h : Unrolls p q) : q.common = p.common :=
  flatMap_entries h fun _ _ _ hlist => hlist.flatMap_commands fun _ => rfl

theorem Unrolls.insert_direct (h : Unrolls p q) {statements statements' : List Statement}
    (hdirect : Splits statements statements') :
    Unrolls (p.insert ⟨none, statements⟩) (q.insert ⟨none, statements'⟩) where
  lines := h.lines
  direct := hdirect
  guarded := h.guarded

theorem forall₂_place {entries others : List (Nat × List Statement)} {statements statements' : List Statement}
    (h : List.Forall₂ (fun entry other => entry.1 = other.1 ∧ Splits entry.2 other.2) entries others)
    (hline : Splits statements statements') (number : Nat) :
    List.Forall₂ (fun entry other => entry.1 = other.1 ∧ Splits entry.2 other.2)
      (Numbered.place number statements entries) (Numbered.place number statements' others) := by
  induction h with
  | nil => exact .cons ⟨rfl, hline⟩ .nil
  | cons hfirst hrest ih =>
      unfold Numbered.place
      rw [hfirst.1]
      split
      · exact .cons ⟨rfl, hline⟩ (.cons hfirst hrest)
      · split
        · exact .cons ⟨rfl, hline⟩ hrest
        · exact .cons hfirst ih

/-- A line and the one with some NEXT lists written out are put into both programs, or deleted from both. -/
theorem Unrolls.insert (h : Unrolls p q) {statements statements' : List Statement}
    (hline : Splits statements statements') (number : Nat) :
    Unrolls (p.insert ⟨some number, statements⟩) (q.insert ⟨some number, statements'⟩) := by
  have hempty : statements'.isEmpty = statements.isEmpty := by
    rw [Bool.eq_iff_iff, List.isEmpty_iff, List.isEmpty_iff]
    exact hline.eq_nil_iff
  unfold Program.insert Line.isEmpty
  dsimp only
  rw [hempty]
  split
  · have herase : List.Forall₂ (fun entry other => entry.1 = other.1 ∧ Splits entry.2 other.2)
        (p.lines.erase number).entries (q.lines.erase number).entries :=
      List.rel_filter (fun entry other hboth => by dsimp only; rw [hboth.1]) h.lines
    exact ⟨herase, h.direct, h.guarded⟩
  · exact ⟨forall₂_place h.lines hline number, h.direct, h.guarded⟩

/-- A statement of the first program, and the one in its place in the second program. A NEXT that is written out
there has its first one in its place. -/
inductive Corresponds (p q : Program) : Cursor → Cursor → Prop
  | intro {line : Option Nat} {top top' before before' rest rest' : List Statement} {front front' : List Nat}
      {s : Statement} (htop : p.statementsOf? line = some top) (htop' : q.statementsOf? line = some top')
      (hfront : Beside top top' front front' (before ++ s :: rest) (before' ++ rest')) (hbefore : Splits before before')
      (hrest : Splits (s :: rest) rest') :
      Corresponds p q ⟨line, front ++ [before.length]⟩ ⟨line, front' ++ [before'.length]⟩

theorem Corresponds.line (h : Corresponds p q cursor cursor') : cursor'.line = cursor.line := by
  cases h
  rfl

/-- Both statements are first in their lines, or none is. -/
theorem Corresponds.path_eq_iff (h : Corresponds p q cursor cursor') : cursor'.path = [0] ↔ cursor.path = [0] := by
  cases h with
  | @intro line top top' before before' rest rest' front front' s _ _ hfront hbefore _ =>
      have hfirst : ∀ (path : List Nat) (list : List Statement),
          path ++ [list.length] = [0] ↔ path = [] ∧ list = [] := by
        intro path list
        cases path <;> simp
      rw [hfirst, hfirst, hfront.eq_nil_iff, hbefore.eq_nil_iff]

section Places

variable {line : Option Nat} {top top' list list' before before' rest rest' : List Statement}
  {front front' : List Nat} {index index' : Nat}

theorem corresponds_start (hfilled : ∀ entry ∈ p.lines.entries, entry.2 ≠ []) (h : Unrolls p q) {number : Nat}
    (hline : p.lines.contains number = true) :
    Corresponds p q (.start (some number)) (.start (some number)) := by
  obtain ⟨top, htop⟩ := Option.isSome_iff_exists.mp hline
  have hrel := h.statementsOf? (some number)
  rw [show p.statementsOf? (some number) = some top from htop] at hrel
  generalize htop' : q.statementsOf? (some number) = found at hrel
  cases hrel with
  | some hsplits =>
      obtain ⟨s, rest, rfl⟩ := List.exists_cons_of_ne_nil (hfilled _ (Numbered.mem_entries_iff.mpr htop))
      have hplace : Corresponds p q ⟨some number, [] ++ [([] : List Statement).length]⟩
          ⟨some number, [] ++ [([] : List Statement).length]⟩ :=
        .intro htop htop' (.line hsplits) .nil hsplits
      exact hplace

/-- Past statements that correspond both lists go on with statements that do. -/
theorem corresponds_next (htop : p.statementsOf? line = some top) (htop' : q.statementsOf? line = some top')
    {s : Statement} (hfront : Beside top top' front front' (before ++ s :: rest) (before' ++ rest'))
    (hbefore : Splits before before') (hrest : Splits (s :: rest) rest') (hindex : index + 1 = before.length)
    (hindex' : index' + 1 = before'.length) :
    Option.Rel (Corresponds p q) (p.advance? ⟨line, front ++ [index]⟩) (q.advance? ⟨line, front' ++ [index']⟩) := by
  obtain ⟨hlist, hlist'⟩ := hfront.listAt?
  obtain ⟨s', more', rfl⟩ := List.exists_cons_of_ne_nil fun hnil => List.cons_ne_nil s rest (hrest.eq_nil_iff.mp hnil)
  have hs : (p.statement? ⟨line, front ++ [index + 1]⟩).isSome := by
    rw [statement?_of_listAt? htop hlist, hindex]
    simp
  have hs' : (q.statement? ⟨line, front' ++ [index' + 1]⟩).isSome := by
    rw [statement?_of_listAt? htop' hlist', hindex']
    simp
  rw [advance?_of_isSome hs, advance?_of_isSome hs', hindex, hindex']
  exact .some (.intro htop htop' hfront hbefore hrest)

/-- Behind lists that correspond both programs go on with statements that do, or both end. -/
theorem corresponds_leave (hfilled : ∀ entry ∈ p.lines.entries, entry.2 ≠ []) (h : Unrolls p q)
    (htop : p.statementsOf? line = some top) (htop' : q.statementsOf? line = some top')
    (hfront : Beside top top' front front' list list') (hindex : index + 1 = list.length)
    (hindex' : index' + 1 = list'.length) :
    Option.Rel (Corresponds p q) (p.advance? ⟨line, front ++ [index]⟩) (q.advance? ⟨line, front' ++ [index']⟩) := by
  induction hfront generalizing index index' with
  | line hsplits =>
      have hnone : p.statement? ⟨line, [] ++ [index + 1]⟩ = none := by
        rw [statement?_of_listAt? htop rfl, hindex, List.getElem?_length]
      have hnone' : q.statement? ⟨line, [] ++ [index' + 1]⟩ = none := by
        rw [statement?_of_listAt? htop' rfl, hindex', List.getElem?_length]
      rw [List.nil_append] at hnone hnone' ⊢
      rw [List.nil_append]
      cases line with
      | none =>
          rw [advance?_direct hnone, advance?_direct hnone']
          exact .none
      | some number =>
          rw [advance?_line hnone, advance?_line hnone', h.after?]
          cases hfollowing : p.lines.after? number with
          | none => exact .none
          | some following =>
              obtain ⟨_, hget, -⟩ := exists_following hfollowing
              exact .some (corresponds_start hfilled h (Option.isSome_of_eq_some hget))
  | @branch front front' condition before before' _ _ _ _ rest rest' hupper hbefore hthen helse hrest branch ih =>
      have hbranch := Beside.branch hupper hbefore hthen helse hrest branch
      obtain ⟨hlist, hlist'⟩ := hbranch.listAt?
      have hnone : p.statement? ⟨line, front ++ [before.length, branch] ++ [index + 1]⟩ = none := by
        rw [statement?_of_listAt? htop hlist, hindex, List.getElem?_length]
      have hnone' : q.statement? ⟨line, front' ++ [before'.length, branch] ++ [index' + 1]⟩ = none := by
        rw [statement?_of_listAt? htop' hlist', hindex', List.getElem?_length]
      rw [advance?_branch hnone, advance?_branch hnone']
      cases rest with
      | nil =>
          cases hrest
          exact ih (by simp) (by simp)
      | cons s rest =>
          rw [List.append_cons before, List.append_cons before'] at hupper
          exact corresponds_next htop htop' hupper (hbefore.append (.choice condition hthen helse .nil)) hrest (by simp)
            (by simp)

/-- Past statements that correspond both programs go on with statements that do, or both end. -/
theorem corresponds_onward (hfilled : ∀ entry ∈ p.lines.entries, entry.2 ≠ []) (h : Unrolls p q)
    (htop : p.statementsOf? line = some top) (htop' : q.statementsOf? line = some top')
    (hfront : Beside top top' front front' (before ++ rest) (before' ++ rest')) (hbefore : Splits before before')
    (hrest : Splits rest rest') (hindex : index + 1 = before.length) (hindex' : index' + 1 = before'.length) :
    Option.Rel (Corresponds p q) (p.advance? ⟨line, front ++ [index]⟩) (q.advance? ⟨line, front' ++ [index']⟩) := by
  cases rest with
  | nil =>
      cases hrest
      rw [List.append_nil, List.append_nil] at hfront
      exact corresponds_leave hfilled h htop htop' hfront hindex hindex'
  | cons s rest => exact corresponds_next htop htop' hfront hbefore hrest hindex hindex'

end Places

section Rows

/-- From the cursor on a NEXT for each of the counters follows, all in one line, and after them comes the other
cursor. -/
inductive Row (program : Program) : Option Cursor → List Name → Option Cursor → Prop
  | nil (behind : Option Cursor) : Row program behind [] behind
  | cons {cursor : Cursor} {counter : Name} {counters : List Name} {behind : Option Cursor}
      (hs : program.statement? cursor = some (nextOf counter))
      (hinner : counters ≠ [] → ∀ next ∈ program.advance? cursor, next.line = cursor.line ∧ next.path ≠ [0])
      (h : Row program (program.advance? cursor) counters behind) :
      Row program (some cursor) (counter :: counters) behind

/-- Statements that are the same but for what stands in the branches of an IF. -/
inductive Kept : Statement → Statement → Prop
  | command (c : Command) : Kept (.command c) (.command c)
  | choice (condition : Expr) (thenList thenList' elseList elseList' : List Statement) :
      Kept (.choice condition thenList elseList) (.choice condition thenList' elseList')

variable {line : Option Nat} {top before rest : List Statement} {front : List Nat}

theorem row_of_listAt? (htop : p.statementsOf? line = some top) {counters : List Name} (hsome : counters ≠ [])
    (hlist : listAt? top front = some (before ++ (counters.map nextOf ++ rest))) {last : Nat}
    (hlast : last + 1 = before.length + counters.length) :
    p.Row (some ⟨line, front ++ [before.length]⟩) counters (p.advance? ⟨line, front ++ [last]⟩) := by
  induction counters generalizing before with
  | nil => exact absurd rfl hsome
  | cons counter counters ih =>
      have hs : p.statement? ⟨line, front ++ [before.length]⟩ = some (nextOf counter) := by
        rw [statement?_of_listAt? htop hlist]
        simp
      cases counters with
      | nil =>
          have hindex : last = before.length := by simpa using hlast
          rw [hindex]
          exact .cons hs (fun hnone => absurd rfl hnone) (.nil _)
      | cons second counters =>
          have hsecond : (p.statement? ⟨line, front ++ [before.length + 1]⟩).isSome := by
            rw [statement?_of_listAt? htop hlist]
            simp
          have hadvance := advance?_of_isSome hsecond
          refine .cons hs (fun _ next hnext => ?_) ?_
          · rw [hadvance] at hnext
            cases hnext
            exact ⟨rfl, by cases front <;> simp⟩
          · have hrest : listAt? top front =
                some ((before ++ [nextOf counter]) ++ ((second :: counters).map nextOf ++ rest)) := by
              simpa using hlist
            have hrow := ih (List.cons_ne_nil _ _) hrest (by simp at hlast ⊢; omega)
            rw [hadvance]
            rwa [List.length_append, List.length_singleton] at hrow

/-- Where one program has a statement, the other has the same one, or the NEXT statements that it is written as.
Behind these both go on with statements that correspond. -/
theorem Corresponds.cases (hfilled : ∀ entry ∈ p.lines.entries, entry.2 ≠ []) (h : Unrolls p q)
    (hplace : Corresponds p q cursor cursor') :
    (∃ s s', p.statement? cursor = some s ∧ q.statement? cursor' = some s' ∧ Kept s s' ∧
        Option.Rel (Corresponds p q) (p.advance? cursor) (q.advance? cursor')) ∨
      ∃ counters behind, p.statement? cursor = some (.command (.next counters)) ∧ 2 ≤ counters.length ∧
        q.Row (some cursor') counters behind ∧ Option.Rel (Corresponds p q) (p.advance? cursor) behind := by
  cases hplace with
  | @intro line top top' before before' rest rest' front front' s htop htop' hfront hbefore hrest =>
      obtain ⟨hlist, hlist'⟩ := hfront.listAt?
      have hs : p.statement? ⟨line, front ++ [before.length]⟩ = some s := by
        rw [statement?_of_listAt? htop hlist]
        simp
      -- A statement that is kept is passed in both lists alike.
      have hkept : ∀ (s' : Statement) (more' : List Statement), rest' = s' :: more' → Splits [s] [s'] →
          Splits rest more' → Kept s s' → ∃ s s', p.statement? ⟨line, front ++ [before.length]⟩ = some s ∧
            q.statement? ⟨line, front' ++ [before'.length]⟩ = some s' ∧ Kept s s' ∧
            Option.Rel (Corresponds p q) (p.advance? ⟨line, front ++ [before.length]⟩)
              (q.advance? ⟨line, front' ++ [before'.length]⟩) := by
        rintro s' more' rfl hfirst hmore hkept
        refine ⟨s, s', hs, ?_, hkept, ?_⟩
        · rw [statement?_of_listAt? htop' hlist']
          simp
        · rw [List.append_cons before, List.append_cons before'] at hfront
          exact corresponds_onward hfilled h htop htop' hfront (hbefore.append hfirst) hmore (by simp) (by simp)
      cases hrest with
      | command c hmore => exact .inl (hkept _ _ rfl (.command c .nil) hmore (.command c))
      | choice condition hthen helse hmore =>
          exact .inl (hkept _ _ rfl (.choice condition hthen helse .nil) hmore (.choice condition _ _ _ _))
      | @next counters hlong _ more' hmore =>
          have hsome : counters ≠ [] := fun hnil => by simp [hnil] at hlong
          obtain ⟨last, hlast⟩ : ∃ last, last + 1 = before'.length + counters.length :=
            ⟨before'.length + counters.length - 1, by omega⟩
          refine .inr ⟨counters, _, hs, hlong, row_of_listAt? htop' hsome hlist' hlast, ?_⟩
          have hfirst : Splits [.command (.next counters)] (counters.map nextOf) := by
            simpa using Splits.next hlong .nil
          rw [List.append_cons before, ← List.append_assoc before'] at hfront
          exact corresponds_onward hfilled h htop htop' hfront (hbefore.append hfirst) hmore (by simp)
            (by rw [hlast, List.length_append, List.length_map])

theorem Corresponds.isSome (h : Corresponds p q cursor cursor') :
    (p.statement? cursor).isSome ∧ (q.statement? cursor').isSome := by
  cases h with
  | intro htop htop' hfront _ hrest =>
      obtain ⟨hlist, hlist'⟩ := hfront.listAt?
      obtain ⟨s', more', rfl⟩ := List.exists_cons_of_ne_nil fun hnil => List.cons_ne_nil _ _ (hrest.eq_nil_iff.mp hnil)
      rw [statement?_of_listAt? htop hlist, statement?_of_listAt? htop' hlist']
      simp

/-- The branches of an IF that correspond are entered at statements that do. -/
theorem Corresponds.enterBranch? (h : Corresponds p q cursor cursor') (branch : Nat) {condition : Expr}
    {thenList elseList : List Statement} (hs : p.statement? cursor = some (.choice condition thenList elseList)) :
    Option.Rel (Corresponds p q) (p.enterBranch? cursor branch) (q.enterBranch? cursor' branch) := by
  cases h with
  | @intro line top top' before before' rest rest' front front' s htop htop' hfront hbefore hrest =>
      obtain ⟨hlist, hlist'⟩ := hfront.listAt?
      rw [statement?_of_listAt? htop hlist, List.getElem?_append_right (Nat.le_refl _), Nat.sub_self,
        List.getElem?_cons_zero] at hs
      cases hs
      cases hrest with
      | @choice _ _ thenList' _ elseList' _ more' hthen helse hmore =>
          have hbranch := Beside.branch hfront hbefore hthen helse hmore branch
          have hempty := hbranch.splits.eq_nil_iff
          have hs : p.statement? ⟨line, front ++ [before.length]⟩ = some (.choice condition thenList elseList) := by
            rw [statement?_of_listAt? htop hlist]
            simp
          have hs' : q.statement? ⟨line, front' ++ [before'.length]⟩ =
              some (.choice condition thenList' elseList') := by
            rw [statement?_of_listAt? htop' hlist']
            simp
          rw [Program.enterBranch?, Program.enterBranch?, hs, hs']
          dsimp only
          generalize (if branch = 0 then thenList else elseList) = entered at hbranch hempty ⊢
          generalize (if branch = 0 then thenList' else elseList') = entered' at hbranch hempty ⊢
          cases entered with
          | nil =>
              rw [hempty.mpr rfl]
              exact .none
          | cons first more =>
              obtain ⟨first', more', rfl⟩ :=
                List.exists_cons_of_ne_nil fun hnil => List.cons_ne_nil _ _ (hempty.mp hnil)
              have hnil : Splits ([] : List Statement) [] := .nil
              have hentered := Corresponds.intro htop htop' hbranch hnil hbranch.splits
              rw [List.append_assoc, List.append_assoc] at hentered ⊢
              exact .some hentered

end Rows

section Searches

variable {start start' : Option Cursor} {opened left : Nat} {close : Cursor}

/-- A search goes past a row of NEXT statements if it may go past each of them. -/
theorem Row.finds {weigh : Nat → Statement → Option Nat} {counters : List Name} {behind : Option Cursor}
    (h : p.Row start counters behind) {after : Nat}
    (hweigh : counters.foldlM (fun opened counter => weigh opened (nextOf counter)) opened = some after)
    (hfinds : p.Finds weigh after behind left close) : p.Finds weigh opened start left close := by
  induction h generalizing opened with
  | nil behind =>
      cases hweigh
      exact hfinds
  | cons hs _ _ ih =>
      rw [List.foldlM_cons] at hweigh
      obtain ⟨between, hgoes, hrest⟩ := Option.bind_eq_some_iff.mp hweigh
      exact .further hs hgoes (ih hrest hfinds)

theorem weighLoops_nextOf (opened : Nat) (counter : Name) :
    weighLoops (opened + 1) (nextOf counter) = some opened := by
  simp [weighLoops, nextOf]

/-- One NEXT for each of several counters closes as many loops as a NEXT with all of them. -/
theorem foldlM_weighLoops {counters : List Name} (h : counters.length ≤ opened) :
    counters.foldlM (fun opened counter => weighLoops opened (nextOf counter)) opened =
      some (opened - counters.length) := by
  induction counters generalizing opened with
  | nil => rfl
  | cons counter counters ih =>
      rw [List.length_cons] at h
      obtain ⟨fewer, rfl⟩ := Nat.exists_eq_add_one_of_ne_zero (Nat.ne_zero_of_lt (Nat.lt_of_succ_le h))
      rw [List.foldlM_cons, weighLoops_nextOf, Option.bind_eq_bind, Option.bind_some, ih (Nat.le_of_succ_le_succ h),
        List.length_cons, Nat.add_sub_add_right]

theorem foldlM_weighWhiles (counters : List Name) (opened : Nat) :
    counters.foldlM (fun opened counter => weighWhiles opened (nextOf counter)) opened = some opened := by
  induction counters with
  | nil => rfl
  | cons counter counters ih => exact ih

/-- A loop that has as many loops in it as a row of NEXT statements closes less one is closed by the last one. -/
theorem Row.closes {counters : List Name} {behind : Option Cursor} (h : p.Row start counters behind)
    (hlength : counters.length = opened + 1) :
    ∃ close, p.Finds weighLoops opened start 0 close ∧ p.advance? close = behind := by
  induction h generalizing opened with
  | nil => cases hlength
  | @cons cursor counter counters behind hs hinner hrow ih =>
      cases opened with
      | zero =>
          obtain rfl := List.length_eq_zero_iff.mp (Nat.succ.inj hlength)
          have hbehind : p.advance? cursor = behind := by
            generalize p.advance? cursor = next at hrow
            cases hrow
            rfl
          exact ⟨cursor, .here hs rfl, hbehind⟩
      | succ opened =>
          obtain ⟨close, hfinds, hbehind⟩ := ih (Nat.succ.inj hlength)
          exact ⟨close, .further hs (weighLoops_nextOf opened counter) hfinds, hbehind⟩

/-- A statement that is kept counts for loops what it has counted. -/
theorem Kept.weigh {s s' : Statement} (h : Kept s s') (opened : Nat) :
    weighLoops opened s' = weighLoops opened s ∧ weighWhiles opened s' = weighWhiles opened s := by
  cases h <;> exact ⟨rfl, rfl⟩

/-- **The NEXT that closes a FOR is found in both programs**, where it does not go on with counters of further
loops. -/
theorem Finds.closes (hfilled : ∀ entry ∈ p.lines.entries, entry.2 ≠ []) (h : Unrolls p q)
    (hfinds : p.Finds weighLoops opened start left close)
    (hstart : Option.Rel (Corresponds p q) start start')
    (hexact : ∀ counters, p.statement? close = some (.command (.next counters)) → counters.length ≤ left + 1) :
    ∃ left' close', q.Finds weighLoops opened start' left' close' ∧
      Option.Rel (Corresponds p q) (p.advance? close) (q.advance? close') := by
  induction hfinds generalizing start' with
  | @here opened cursor s hs hends =>
      cases hstart with
      | @some _ cursor' hplace =>
          obtain ⟨_, s', hfound, hs', hkept, hnext⟩ | ⟨counters, behind, hfound, hlong, hrow, hnext⟩ :=
            hplace.cases hfilled h
          · obtain rfl := Option.some.inj (hs.symm.trans hfound)
            exact ⟨opened, cursor', .here hs' ((hkept.weigh opened).1.trans hends), hnext⟩
          · obtain rfl := Option.some.inj (hs.symm.trans hfound)
            have hmore : max counters.length 1 > opened := by
              by_contra hfew
              exact absurd hends (by rw [weighLoops, if_neg hfew]; exact Option.some_ne_none _)
            have hfew := hexact counters hs
            obtain ⟨close', hfinds', hbehind⟩ := hrow.closes (show counters.length = opened + 1 by omega)
            exact ⟨0, close', hfinds', hbehind ▸ hnext⟩
  | @further opened opened' left cursor close s hs hgoes _ ih =>
      cases hstart with
      | @some _ cursor' hplace =>
          obtain ⟨_, s', hfound, hs', hkept, hnext⟩ | ⟨counters, behind, hfound, hlong, hrow, hnext⟩ :=
            hplace.cases hfilled h
          · obtain rfl := Option.some.inj (hs.symm.trans hfound)
            obtain ⟨left', close', hfinds', hbehind⟩ := ih hnext hexact
            exact ⟨left', close', .further hs' ((hkept.weigh opened).1.trans hgoes) hfinds', hbehind⟩
          · obtain rfl := Option.some.inj (hs.symm.trans hfound)
            obtain ⟨left', close', hfinds', hbehind⟩ := ih hnext hexact
            have hfew : counters.length ≤ opened := by
              by_contra hmany
              rw [weighLoops, if_pos (by omega)] at hgoes
              cases hgoes
            rw [weighLoops, if_neg (by omega), Nat.max_eq_left (by omega)] at hgoes
            exact ⟨left', close', hrow.finds ((foldlM_weighLoops hfew).trans hgoes) hfinds', hbehind⟩

/-- The WEND that closes a WHILE is found in both programs. -/
theorem Finds.wend (hfilled : ∀ entry ∈ p.lines.entries, entry.2 ≠ []) (h : Unrolls p q)
    (hfinds : p.Finds weighWhiles opened start left close) (hstart : Option.Rel (Corresponds p q) start start') :
    ∃ left' close', q.Finds weighWhiles opened start' left' close' ∧
      Option.Rel (Corresponds p q) (p.advance? close) (q.advance? close') := by
  induction hfinds generalizing start' with
  | @here opened cursor s hs hends =>
      cases hstart with
      | @some _ cursor' hplace =>
          obtain ⟨_, s', hfound, hs', hkept, hnext⟩ | ⟨counters, behind, hfound, -, -, -⟩ := hplace.cases hfilled h
          · obtain rfl := Option.some.inj (hs.symm.trans hfound)
            exact ⟨opened, cursor', .here hs' ((hkept.weigh opened).2.trans hends), hnext⟩
          · obtain rfl := Option.some.inj (hs.symm.trans hfound)
            cases hends
  | @further opened opened' left cursor close s hs hgoes _ ih =>
      cases hstart with
      | @some _ cursor' hplace =>
          obtain ⟨_, s', hfound, hs', hkept, hnext⟩ | ⟨counters, behind, hfound, hlong, hrow, hnext⟩ :=
            hplace.cases hfilled h
          · obtain rfl := Option.some.inj (hs.symm.trans hfound)
            obtain ⟨left', close', hfinds', hbehind⟩ := ih hnext
            exact ⟨left', close', .further hs' ((hkept.weigh opened).2.trans hgoes) hfinds', hbehind⟩
          · obtain rfl := Option.some.inj (hs.symm.trans hfound)
            obtain ⟨left', close', hfinds', hbehind⟩ := ih hnext
            cases hgoes
            exact ⟨left', close', hrow.finds (foldlM_weighWhiles counters opened) hfinds', hbehind⟩

end Searches

end Program

end LineBasic
