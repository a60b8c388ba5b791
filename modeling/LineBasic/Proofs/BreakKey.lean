import LineBasic.Proofs.Keyboard

/-! Control-C on the keyboard. The byte raises the break flag wherever it stands in a stroke and however
many strokes wait, except in a stroke that is taken for an escape sequence: the sequence of a function key
has no such byte in it, so the whole stroke stands for nothing and the control-C is lost. -/

namespace LineBasic.Keys

variable {keys : Keys} {stroke : List UInt8}

section Translate

/-- No function key sends a control-C, as part of its sequence. -/
theorem functionKeyLabel?_of_breakByte (hbyte : breakByte ∈ stroke) : functionKeyLabel? stroke = none := by
  have hkeys : ∀ key ∈ functionKeys, breakByte ∉ key := by decide
  unfold functionKeyLabel?
  rw [Option.map_eq_none_iff, List.findIdx?_eq_none_iff]
  intro key hkey
  apply beq_false_of_ne
  rintro rfl
  exact hkeys key hkey hbyte

theorem textFor?_of_breakByte (hbyte : breakByte ∈ stroke) : keys.textFor? stroke = none := by
  unfold textFor?
  rw [functionKeyLabel?_of_breakByte hbyte]
  rfl

theorem translate_of_breakByte (hbyte : breakByte ∈ stroke) :
    keys.translate stroke = if stroke.head? = some 0x1B then [] else stroke := by
  unfold translate
  split
  · rw [textFor?_of_breakByte hbyte, List.head?_cons, if_pos rfl]
  · rename_i hother
    rw [if_neg]
    intro hhead
    match stroke, hhead with
    | [_], rfl => exact absurd (List.mem_singleton.mp hbyte) (by decide)
    | _ :: next :: rest, rfl => exact hother next rest rfl

end Translate

section Flag

theorem breakSeen_send : (keys.send stroke).breakSeen =
    (keys.breakSeen || (keys.translate stroke).contains breakByte) := by
  unfold send
  dsimp only
  split
  · rename_i hempty
    rw [List.isEmpty_iff.mp hempty]
    exact (Bool.or_false _).symm
  · rfl

/-- What stands for nothing changes nothing. -/
theorem send_of_translate_nil (h : keys.translate stroke = []) : keys.send stroke = keys := by
  unfold send
  dsimp only
  rw [h]
  rfl

/-- The flag stays up until it is taken down. -/
theorem breakSeen_use (hseen : keys.breakSeen = true) {u : Use} (hu : u ≠ .clearBreak) :
    (keys.use u).breakSeen = true := by
  cases u with
  | send stroke =>
      show (keys.send stroke).breakSeen = true
      rw [breakSeen_send, hseen, Bool.true_or]
  | assign => exact hseen
  | sendBreak => rfl
  | read =>
      show keys.read.2.breakSeen = true
      unfold read
      split <;> exact hseen
  | clearBreak => exact absurd rfl hu

theorem breakSeen_foldl_use (hseen : keys.breakSeen = true) {uses : List Use} (huses : .clearBreak ∉ uses) :
    (uses.foldl use keys).breakSeen = true := by
  induction uses generalizing keys with
  | nil => exact hseen
  | cons first rest ih =>
      obtain ⟨hfirst, hrest⟩ := List.ne_and_not_mem_of_not_mem_cons huses
      exact ih (breakSeen_use hseen hfirst.symm) hrest

end Flag

/-- **A control-C is heard wherever it stands, but not behind an escape.** Whatever keys mean and whatever
waits, a stroke with a control-C in it leaves the break flag up exactly if the flag was up before or the
stroke does not start with an escape. Behind an escape the stroke stands for nothing and changes nothing.
Else the flag is up also where the stroke does not fit into the queue, and it stays up through everything
that is done with the keyboard until it is taken down. -/
theorem control_c_heard_iff (keys : Keys) (stroke : List UInt8) (hbyte : breakByte ∈ stroke) :
    ((keys.send stroke).breakSeen = true ↔ keys.breakSeen = true ∨ stroke.head? ≠ some 0x1B) ∧
    (stroke.head? = some 0x1B → keys.send stroke = keys) ∧
    (stroke.head? ≠ some 0x1B → ∀ uses : List Use, .clearBreak ∉ uses →
      (uses.foldl use (keys.send stroke)).breakSeen = true) := by
  by_cases hhead : stroke.head? = some 0x1B
  · have hsame : keys.send stroke = keys := by
      apply send_of_translate_nil
      rw [translate_of_breakByte hbyte, if_pos hhead]
    refine ⟨?_, fun _ => hsame, fun hother => absurd hhead hother⟩
    rw [hsame]
    exact ⟨.inl, fun h => h.resolve_right (absurd hhead)⟩
  · have hseen : (keys.send stroke).breakSeen = true := by
      rw [breakSeen_send, translate_of_breakByte hbyte, if_neg hhead, List.contains_iff_mem.mpr hbyte, Bool.or_true]
    exact ⟨⟨fun _ => .inr hhead, fun _ => hseen⟩, fun hescape => absurd hescape hhead,
      fun _ _ huses => breakSeen_foldl_use hseen huses⟩

/-- A keyboard on which twenty strokes wait and the first function key is a command. -/
def crowded : Keys := afterUses (.assign "F1" "RUN\r" :: List.replicate 20 (.send [0x1B, 0x4F, 0x50]))

theorem control_c_heard_iff_crowded :
    crowded.queue.length = capacity ∧ breakByte ∈ [0x41, breakByte] ∧
    (crowded.send [0x41, breakByte]).queue.length = capacity ∧
    ((crowded.send [0x41, breakByte]).breakSeen = true ↔
      crowded.breakSeen = true ∨ [0x41, breakByte].head? ≠ some 0x1B) ∧
    crowded.breakSeen = false :=
  ⟨by decide +kernel, by decide, by decide +kernel,
    (control_c_heard_iff crowded [0x41, breakByte] (by decide)).1, by decide +kernel⟩

/-- A cursor key and a control-C that come as one stroke do not break. -/
theorem control_c_behind_cursor_key :
    breakByte ∈ [0x1B, 0x5B, 0x41, breakByte] ∧
      (({} : Keys).send [0x1B, 0x5B, 0x41, breakByte]).breakSeen = false := by
  decide +kernel

end LineBasic.Keys
