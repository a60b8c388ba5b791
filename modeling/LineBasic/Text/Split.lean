/-! Splitting of text at a separator, and joining again. -/

namespace LineBasic.Text

/-- The parts of a text between separators; without a separator it is one part. -/
def split (separator : Char) : List Char → List (List Char)
  | [] => [[]]
  | c :: rest =>
      if c = separator then [] :: split separator rest
      else
        match split separator rest with
        | first :: others => (c :: first) :: others
        | [] => [[c]]

/-- The parts with the separator between each two. -/
def join (separator : Char) : List (List Char) → List Char
  | [] => []
  | [part] => part
  | part :: rest => part ++ separator :: join separator rest

theorem split_ne_nil (separator : Char) (text : List Char) : split separator text ≠ [] := by
  cases text with
  | nil => simp [split]
  | cons c rest =>
      unfold split
      split
      · simp
      · split <;> simp

/-- Joining undoes splitting. -/
theorem join_split (separator : Char) (text : List Char) :
    join separator (split separator text) = text := by
  induction text with
  | nil => rfl
  | cons c rest ih =>
      unfold split
      split
      · rename_i h
        cases hs : split separator rest with
        | nil => exact absurd hs (split_ne_nil _ _)
        | cons first others => rw [hs] at ih; simp [join, ih, h]
      · cases hs : split separator rest with
        | nil => exact absurd hs (split_ne_nil _ _)
        | cons first others =>
            rw [hs] at ih
            cases others with
            | nil => simpa [join] using ih
            | cons _ _ => simpa [join] using ih

theorem split_of_not_mem {separator : Char} {text : List Char} (h : separator ∉ text) :
    split separator text = [text] := by
  induction text with
  | nil => rfl
  | cons c rest ih =>
      rw [List.mem_cons, not_or] at h
      rw [split, if_neg (Ne.symm h.1), ih h.2]

theorem split_append_separator {separator : Char} {part : List Char} (h : separator ∉ part) (rest : List Char) :
    split separator (part ++ separator :: rest) = part :: split separator rest := by
  induction part with
  | nil => simp [split]
  | cons c part ih =>
      rw [List.mem_cons, not_or] at h
      rw [List.cons_append, split, if_neg (Ne.symm h.1), ih h.2]

/-- Splitting undoes joining, where the separator is in none of the parts. -/
theorem split_join {separator : Char} {parts : List (List Char)} (hne : parts ≠ [])
    (h : ∀ part ∈ parts, separator ∉ part) : split separator (join separator parts) = parts := by
  induction parts with
  | nil => exact absurd rfl hne
  | cons part others ih =>
      have hpart := h part List.mem_cons_self
      cases others with
      | nil => exact split_of_not_mem hpart
      | cons next rest =>
          have hothers := ih (by simp) fun other hother => h other (List.mem_cons_of_mem part hother)
          rw [join, split_append_separator hpart, hothers]
          simp

/-- What stands in a part of a text. -/
theorem mem_of_mem_split {separator c : Char} {text part : List Char} (hpart : part ∈ split separator text)
    (hc : c ∈ part) : c ≠ separator ∧ c ∈ text := by
  induction text generalizing part with
  | nil =>
      rw [List.mem_singleton.mp hpart] at hc
      cases hc
  | cons first rest ih =>
      rw [Text.split] at hpart
      split at hpart
      · rcases List.mem_cons.mp hpart with rfl | hpart
        · cases hc
        · exact (ih hpart hc).imp_right (List.mem_cons_of_mem first)
      · rename_i hfirst
        obtain ⟨head, others, hsplit⟩ := List.exists_cons_of_ne_nil (split_ne_nil separator rest)
        rw [hsplit] at hpart ih
        rcases List.mem_cons.mp hpart with rfl | hpart
        · rcases List.mem_cons.mp hc with rfl | hc
          · exact ⟨hfirst, List.mem_cons_self⟩
          · exact (ih List.mem_cons_self hc).imp_right (List.mem_cons_of_mem first)
        · exact (ih (List.mem_cons_of_mem head hpart) hc).imp_right (List.mem_cons_of_mem first)

theorem not_mem_of_mem_split {separator : Char} {text part : List Char} (hpart : part ∈ split separator text) :
    separator ∉ part :=
  fun hmem => (mem_of_mem_split hpart hmem).1 rfl

end LineBasic.Text
