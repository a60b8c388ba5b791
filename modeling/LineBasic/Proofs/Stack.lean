import LineBasic.Stack
import Mathlib.Data.List.Basic
import Mathlib.Data.List.Forall2

/-! Stacks as lists from the bottom to the top. Pushing appends, truncating keeps a front part, and
the entry that a search finds is the last one of its kind. Stacks whose entries are related one by one stay so
whatever is done to both. -/

namespace LineBasic.Stack

variable {α : Type} {stack after : Stack α}

theorem size_eq_length_toList (stack : Stack α) : stack.size = stack.toList.length := by
  rw [toList, List.length_reverse, stack.size_eq]

theorem toList_of_push {entry : α} (h : stack.push entry = .ok after) :
    after.toList = stack.toList ++ [entry] := by
  unfold push at h
  split at h
  · cases h
  · cases h
    simp [toList]

theorem toList_truncate (stack : Stack α) (count : Nat) :
    (stack.truncate count).toList = stack.toList.take count := by
  rw [toList, toList, List.take_reverse, ← stack.size_eq]
  rfl

theorem top?_eq_getLast? (stack : Stack α) : stack.top? = stack.toList.getLast? := by
  rw [top?, toList, List.getLast?_reverse]

theorem toList_of_pop {entry : α} (h : stack.pop = .ok (entry, after)) :
    stack.toList = after.toList ++ [entry] := by
  unfold pop at h
  split at h
  · rename_i top htop
    cases h
    rw [top?_eq_getLast?, List.getLast?_eq_some_iff] at htop
    obtain ⟨below, hbelow⟩ := htop
    have hsize : stack.size - 1 = below.length := by
      rw [size_eq_length_toList, hbelow, List.length_append, List.length_singleton]
      omega
    rw [toList_truncate, hsize, hbelow, List.take_left]
  · cases h

theorem pop_of_toList {below : List α} {entry : α} (h : stack.toList = below ++ [entry]) :
    ∃ after, stack.pop = .ok (entry, after) ∧ after.toList = below := by
  have htop : stack.top? = some entry := by
    rw [top?_eq_getLast?, h, List.getLast?_concat]
  have hpop : stack.pop = .ok (entry, stack.truncate (stack.size - 1)) := by
    rw [pop, htop]
    rfl
  refine ⟨stack.truncate (stack.size - 1), hpop, ?_⟩
  have hlist := toList_of_pop hpop
  rw [h] at hlist
  exact (List.append_inj' hlist rfl).1.symm

/-- Taking away entries of one kind stops at an entry of another kind. -/
theorem prefix_toList_popWhile {test : α → Bool} {below : List α} {entry : α}
    (htest : test entry = false) (h : below ++ [entry] <+: stack.toList) :
    below ++ [entry] <+: (stack.popWhile test).toList := by
  obtain ⟨above, habove⟩ := h
  have hentries : stack.entries = above.reverse ++ entry :: below.reverse := by
    rw [← List.reverse_reverse stack.entries]
    change stack.toList.reverse = _
    rw [← habove]
    simp
  have hlength : (stack.entries.takeWhile test).length ≤ above.length := by
    rw [hentries]
    calc
      _ ≤ (above.reverse.takeWhile test).length := by
          rw [List.takeWhile_append]
          split
          · rw [List.takeWhile_cons_of_neg (by simp [htest])]
            simp_all
          · exact Nat.le_refl _
      _ ≤ above.reverse.length := (List.takeWhile_prefix _).length_le
      _ = above.length := List.length_reverse
  rw [popWhile, toList_truncate]
  refine List.prefix_take_iff.mpr ⟨⟨above, habove⟩, ?_⟩
  rw [size_eq_length_toList, ← habove]
  simp only [List.length_append, List.length_singleton]
  omega

/-- A search from the top finds the last entry that passes the test. -/
theorem split_of_lastIndex? {test : α → Bool} {index : Nat}
    (h : stack.lastIndex? test = some index) :
    ∃ below entry above, stack.toList = below ++ entry :: above ∧ below.length = index ∧
      test entry = true ∧ ∀ other ∈ above, test other = false := by
  unfold lastIndex? at h
  obtain ⟨depth, hdepth, rfl⟩ := Option.map_eq_some_iff.mp h
  obtain ⟨hlt, htest, hbefore⟩ := List.findIdx?_eq_some_iff_getElem.mp hdepth
  refine ⟨(stack.entries.drop (depth + 1)).reverse, stack.entries[depth],
    (stack.entries.take depth).reverse, ?_, ?_, htest, ?_⟩
  · have hsplit : stack.entries =
        stack.entries.take depth ++ stack.entries[depth] :: stack.entries.drop (depth + 1) := by
      rw [← List.drop_eq_getElem_cons hlt, List.take_append_drop]
    rw [toList]
    conv_lhs => rw [hsplit]
    simp
  · rw [List.length_reverse, List.length_drop, stack.size_eq]
    omega
  · intro other hother
    rw [List.mem_reverse, List.mem_iff_getElem] at hother
    obtain ⟨i, hi, rfl⟩ := hother
    rw [List.length_take] at hi
    rw [List.getElem_take]
    simpa using hbefore i (by omega)

/-- No entry that passes the test stands above the one that the search finds. -/
theorem length_le_of_lastIndex? {test : α → Bool} {index : Nat} {below : List α} {entry : α}
    (htest : test entry = true) (hbelow : below ++ [entry] <+: stack.toList)
    (h : stack.lastIndex? test = some index) : below.length ≤ index := by
  obtain ⟨lower, found, above, hsplit, rfl, -, habove⟩ := split_of_lastIndex? h
  obtain ⟨rest, hrest⟩ := hbelow
  by_contra hlt
  have hat : (lower ++ found :: above)[below.length]? = some entry := by
    rw [← hsplit, ← hrest, List.append_assoc, List.getElem?_append_right (Nat.le_refl _)]
    simp
  rw [List.getElem?_append_right (by omega),
    show below.length - lower.length = below.length - lower.length - 1 + 1 by omega,
    List.getElem?_cons_succ] at hat
  have hfalse := habove entry (List.mem_of_getElem? hat)
  rw [htest] at hfalse
  cases hfalse

/-- A search that finds nothing has met every entry. -/
theorem forall_of_lastIndex?_eq_none {test : α → Bool} (h : stack.lastIndex? test = none) :
    ∀ entry ∈ stack.toList, test entry = false := by
  unfold lastIndex? at h
  rw [Option.map_eq_none_iff, List.findIdx?_eq_none_iff] at h
  intro entry hentry
  exact h entry (List.mem_reverse.mp hentry)

theorem size_le_of_push {entry : α} (h : stack.push entry = .ok after) : after.size ≤ maxSize := by
  unfold push at h
  split at h
  · cases h
  · cases h
    exact Nat.not_le.mp ‹_›

theorem size_truncate_le (stack : Stack α) (count : Nat) :
    (stack.truncate count).size ≤ stack.size :=
  Nat.min_le_right _ _

theorem eq_truncate_of_pop {entry : α} (h : stack.pop = .ok (entry, after)) :
    after = stack.truncate (stack.size - 1) := by
  unfold pop at h
  split at h
  · cases h
    rfl
  · cases h

section Related

variable {β : Type} {R : α → β → Prop} {other : Stack β} {test : α → Bool} {otherTest : β → Bool}

/-- Stacks that overflow alike, with entries in a relation. -/
structure Rel (R : α → β → Prop) (stack : Stack α) (other : Stack β) : Prop where
  overflow : other.overflow = stack.overflow
  entries : List.Forall₂ R stack.entries other.entries

theorem Rel.size (h : Rel R stack other) : other.size = stack.size := by
  rw [stack.size_eq, other.size_eq, h.entries.length_eq]

theorem Rel.truncate (h : Rel R stack other) (count : Nat) : Rel R (stack.truncate count) (other.truncate count) where
  overflow := h.overflow
  entries := by
    unfold Stack.truncate
    dsimp only
    rw [h.size]
    exact List.forall₂_drop _ h.entries

theorem Rel.clear (h : Rel R stack other) {S : α → β → Prop} : Rel S stack.clear other.clear where
  overflow := h.overflow
  entries := .nil

theorem Rel.popWhile (h : Rel R stack other) (htest : ∀ entry found, R entry found → otherTest found = test entry) :
    Rel R (stack.popWhile test) (other.popWhile otherTest) := by
  have hlength : (other.entries.takeWhile otherTest).length = (stack.entries.takeWhile test).length := by
    have hentries := h.entries
    generalize stack.entries = entries at hentries ⊢
    generalize other.entries = others at hentries ⊢
    induction hentries with
    | nil => rfl
    | cons hfirst hrest ih =>
        rw [List.takeWhile_cons, List.takeWhile_cons, htest _ _ hfirst]
        split
        · rw [List.length_cons, List.length_cons, ih]
        · rfl
  unfold Stack.popWhile
  rw [hlength, h.size]
  exact h.truncate _

theorem Rel.lastIndex? (h : Rel R stack other) (htest : ∀ entry found, R entry found → otherTest found = test entry) :
    other.lastIndex? otherTest = stack.lastIndex? test := by
  have hfind : other.entries.findIdx? otherTest = stack.entries.findIdx? test := by
    have hentries := h.entries
    generalize stack.entries = entries at hentries ⊢
    generalize other.entries = others at hentries ⊢
    induction hentries with
    | nil => rfl
    | cons hfirst hrest ih => rw [List.findIdx?_cons, List.findIdx?_cons, htest _ _ hfirst, ih]
  unfold Stack.lastIndex?
  rw [hfind, h.size]

theorem Rel.push (h : Rel R stack other) {entry : α} {found : β} (hentry : R entry found) :
    (∃ fault, stack.push entry = .error fault ∧ other.push found = .error fault) ∨
      ∃ pushed otherPushed, stack.push entry = .ok pushed ∧ other.push found = .ok otherPushed ∧
        Rel R pushed otherPushed := by
  unfold Stack.push
  by_cases hfull : stack.size ≥ maxSize
  · refine .inl ⟨.of .outOfMemory stack.overflow, if_pos hfull, ?_⟩
    rw [← h.size] at hfull
    rw [if_pos hfull, h.overflow]
    rfl
  · have hroom : ¬other.size ≥ maxSize := by rwa [h.size]
    rw [if_neg hfull, if_neg hroom]
    exact .inr ⟨_, _, rfl, rfl, h.overflow, .cons hentry h.entries⟩

theorem Rel.top? (h : Rel R stack other) :
    (stack.top? = none ∧ other.top? = none) ∨
      ∃ entry found, stack.top? = some entry ∧ other.top? = some found ∧ R entry found := by
  have hentries := h.entries
  unfold Stack.top?
  generalize stack.entries = entries at hentries ⊢
  generalize other.entries = others at hentries ⊢
  cases hentries with
  | nil => exact .inl ⟨rfl, rfl⟩
  | cons hfirst _ => exact .inr ⟨_, _, rfl, rfl, hfirst⟩

theorem Rel.pop (h : Rel R stack other) :
    (∃ fault, stack.pop = .error fault ∧ other.pop = .error fault) ∨
      ∃ popped found, stack.pop = .ok popped ∧ other.pop = .ok found ∧ R popped.1 found.1 ∧
        Rel R popped.2 found.2 := by
  unfold Stack.pop
  obtain ⟨hnone, hother⟩ | ⟨entry, found, hentry, hfound, hrelated⟩ := h.top?
  · rw [hnone, hother]
    exact .inl ⟨_, rfl, rfl⟩
  · rw [hentry, hfound, h.size]
    exact .inr ⟨_, _, rfl, rfl, hrelated, h.truncate _⟩

end Related

end LineBasic.Stack
