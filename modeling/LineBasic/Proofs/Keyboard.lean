import LineBasic.Session.Keys
import Mathlib.Data.List.Basic

/-! The keyboard as a queue. Strokes come from any number of senders, texts are assigned to function keys
in between, and a reader takes one byte at a time. A stroke is taken in whole or not at all, and what was
read so far and what is still unread are together the strokes that were taken in, in their order. -/

namespace LineBasic.Keys

variable {keys : Keys}

/-- One thing that is done with a keyboard: by a sender, by the program or by the reader. -/
inductive Use where
  | send (stroke : List UInt8)
  | assign (label text : String)
  | read
  | sendBreak
  | clearBreak

def use (keys : Keys) : Use → Keys
  | .send stroke => keys.send stroke
  | .assign label text => keys.assign label text
  | .read => keys.read.2
  | .sendBreak => keys.sendBreak
  | .clearBreak => keys.clearBreak

/-- The keyboard after one use and another, from the start. -/
def afterUses (uses : List Use) : Keys := uses.foldl use {}

/-- The byte that the reader gets. -/
def givenBy (keys : Keys) : Use → List UInt8
  | .read => keys.read.1.toList
  | _ => []

/-- Whether a stroke is taken in: it stands for something, and fewer strokes wait than can. The stroke
being read is none of those that wait. -/
def Admits (keys : Keys) (stroke : List UInt8) : Prop :=
  ¬(keys.translate stroke = [] ∨ keys.queue.length = capacity)

instance (keys : Keys) (stroke : List UInt8) : Decidable (keys.Admits stroke) :=
  inferInstanceAs (Decidable (¬_))

/-- The stroke that is taken in, as what it stands for. -/
def takenBy (keys : Keys) : Use → List (List UInt8)
  | .send stroke => if keys.Admits stroke then [keys.translate stroke] else []
  | _ => []

/-- All bytes that the reader gets. -/
def given : Keys → List Use → List UInt8
  | _, [] => []
  | keys, first :: rest => keys.givenBy first ++ given (keys.use first) rest

/-- All strokes that are taken in, as what they stood for when they came. -/
def taken : Keys → List Use → List (List UInt8)
  | _, [] => []
  | keys, first :: rest => keys.takenBy first ++ taken (keys.use first) rest

/-- The bytes that were taken in and not read yet. -/
def waiting (keys : Keys) : List UInt8 := keys.unread ++ keys.queue.flatten

section Send

/-- No more strokes wait than can, and none of them is empty. -/
structure Sound (keys : Keys) : Prop where
  length : keys.queue.length ≤ capacity
  nonempty : ∀ stroke ∈ keys.queue, stroke ≠ []

/-- A stroke that is taken in goes whole to the end of the queue. -/
theorem send_of_admits {stroke : List UInt8} (hsound : keys.Sound) (h : keys.Admits stroke) :
    (keys.send stroke).queue = keys.queue ++ [keys.translate stroke] ∧
      (keys.send stroke).unread = keys.unread := by
  obtain ⟨hsome, hlength⟩ := not_or.mp h
  have hroom : keys.queue.length < capacity := Nat.lt_of_le_of_ne hsound.length hlength
  have hbytes : ¬(keys.translate stroke).isEmpty = true := by rwa [List.isEmpty_iff]
  unfold send
  dsimp only
  rw [if_neg hbytes, if_pos hroom]
  exact ⟨rfl, rfl⟩

/-- A stroke that is not taken in leaves nothing of it. -/
theorem send_of_not_admits {stroke : List UInt8} (h : ¬keys.Admits stroke) :
    (keys.send stroke).queue = keys.queue ∧ (keys.send stroke).unread = keys.unread := by
  unfold send
  dsimp only
  split
  · exact ⟨rfl, rfl⟩
  · rename_i hbytes
    rw [List.isEmpty_iff] at hbytes
    have hfull : keys.queue.length = capacity := (not_not.mp h).resolve_left hbytes
    rw [if_neg (Nat.not_lt.mpr (Nat.le_of_eq hfull.symm))]
    exact ⟨rfl, rfl⟩

end Send

/-- The reader gets the oldest byte that waits, and the others go on waiting. -/
theorem read_eq (hsound : keys.Sound) :
    keys.read.1 = keys.waiting.head? ∧ keys.read.2.waiting = keys.waiting.tail := by
  unfold read waiting
  split
  · rename_i byte rest hunread
    rw [hunread]
    exact ⟨rfl, rfl⟩
  · rename_i byte rest queue hunread hqueue
    rw [hunread, hqueue]
    exact ⟨rfl, rfl⟩
  · rename_i queue hunread hqueue
    exact absurd rfl (hsound.nonempty [] (hqueue ▸ List.mem_cons_self))
  · rename_i hunread hqueue
    rw [hunread, hqueue]
    exact ⟨rfl, rfl⟩

theorem Sound.of_queue {after : Keys} (hsound : keys.Sound) (h : ∃ front, keys.queue = front ++ after.queue) :
    after.Sound := by
  obtain ⟨front, hfront⟩ := h
  refine ⟨Nat.le_trans ?_ hsound.length, fun stroke hstroke => hsound.nonempty stroke ?_⟩
  · rw [hfront, List.length_append]
    omega
  · rw [hfront]
    exact List.mem_append_right front hstroke

theorem Sound.read (hsound : keys.Sound) : keys.read.2.Sound := by
  apply hsound.of_queue
  unfold Keys.read
  split
  · exact ⟨[], rfl⟩
  · exact ⟨[_], by assumption⟩
  · exact ⟨[_], by assumption⟩
  · exact ⟨[], rfl⟩

theorem Sound.send (hsound : keys.Sound) (stroke : List UInt8) : (keys.send stroke).Sound := by
  by_cases hadmits : keys.Admits stroke
  · obtain ⟨hqueue, -⟩ := send_of_admits hsound hadmits
    obtain ⟨hsome, hlength⟩ := not_or.mp hadmits
    constructor
    · rw [hqueue, List.length_append, List.length_singleton]
      exact Nat.lt_of_le_of_ne hsound.length hlength
    · intro other hother
      rw [hqueue, List.mem_append, List.mem_singleton] at hother
      rcases hother with hold | rfl
      · exact hsound.nonempty other hold
      · exact hsome
  · exact hsound.of_queue ⟨[], (send_of_not_admits hadmits).1.symm⟩

theorem Sound.use (hsound : keys.Sound) (u : Use) : (keys.use u).Sound := by
  cases u with
  | send stroke => exact hsound.send stroke
  | read => exact hsound.read
  | assign | sendBreak | clearBreak => exact ⟨hsound.length, hsound.nonempty⟩

theorem sound_new : Sound {} where
  length := Nat.zero_le _
  nonempty _ h := absurd h List.not_mem_nil

theorem sound_afterUses (uses : List Use) : (afterUses uses).Sound := by
  have huses : ∀ keys : Keys, keys.Sound → (uses.foldl Keys.use keys).Sound := by
    induction uses with
    | nil => exact fun _ h => h
    | cons first rest ih => exact fun keys h => ih _ (h.use first)
  exact huses {} sound_new

/-- **What one use does to the bytes that wait.** -/
theorem givenBy_append_waiting (hsound : keys.Sound) (u : Use) :
    keys.givenBy u ++ (keys.use u).waiting = keys.waiting ++ (keys.takenBy u).flatten := by
  cases u with
  | send stroke =>
      by_cases hadmits : keys.Admits stroke
      · obtain ⟨hqueue, hunread⟩ := send_of_admits hsound hadmits
        simp [givenBy, takenBy, use, waiting, hadmits, hqueue, hunread]
      · obtain ⟨hqueue, hunread⟩ := send_of_not_admits hadmits
        simp [givenBy, takenBy, use, waiting, hadmits, hqueue, hunread]
  | read =>
      obtain ⟨hbyte, hrest⟩ := read_eq hsound
      have hsplit : keys.waiting.head?.toList ++ keys.waiting.tail = keys.waiting := by
        cases keys.waiting <;> rfl
      simp only [givenBy, takenBy, use, hbyte, hrest, hsplit, List.flatten_nil, List.append_nil]
  | assign | sendBreak | clearBreak => exact (List.append_nil _).symm

/-- **What a sequence of uses does to them.** -/
theorem given_append_waiting (hsound : keys.Sound) (uses : List Use) :
    given keys uses ++ (uses.foldl use keys).waiting = keys.waiting ++ (taken keys uses).flatten := by
  induction uses generalizing keys with
  | nil => exact (List.append_nil _).symm
  | cons first rest ih =>
      calc
        _ = keys.givenBy first ++ (given (keys.use first) rest ++ (rest.foldl use (keys.use first)).waiting) :=
          List.append_assoc _ _ _
        _ = keys.givenBy first ++ (keys.use first).waiting ++ (taken (keys.use first) rest).flatten := by
          rw [ih (hsound.use first), List.append_assoc]
        _ = keys.waiting ++ ((keys.takenBy first).flatten ++ (taken (keys.use first) rest).flatten) := by
          rw [givenBy_append_waiting hsound, List.append_assoc]
        _ = _ := by rw [taken, List.flatten_append]

section Texts

/-- The text that a function key has been given last; an empty one takes it away. -/
def assignedBy (label : String) (before : Option String) : Use → Option String
  | .assign other text => if other = label then (if text.isEmpty then none else some text) else before
  | _ => before

/-- The text that a function key has after all uses. -/
def textAfter (uses : List Use) (label : String) : Option String := uses.foldl (assignedBy label) none

/-- The bytes that a stroke stands for after all uses: an escape sequence for the text of its key, or for
nothing, and any other stroke for itself. -/
def meaningAfter (uses : List Use) (stroke : List UInt8) : List UInt8 :=
  if 1 < stroke.length ∧ stroke.head? = some 0x1B then
    match (functionKeyLabel? stroke).bind (textAfter uses) with
    | some text => text.toUTF8.toList
    | none => []
  else stroke

theorem assigned?_assign (keys : Keys) (label other text : String) :
    (keys.assign other text).assigned? label =
      if other = label then (if text.isEmpty then none else some text) else keys.assigned? label := by
  unfold assign assigned?
  by_cases hempty : text.isEmpty = true
  · rw [if_pos hempty, if_pos hempty]
    change (keys.assigned.erase other)[label]? = _
    rw [Std.TreeMap.getElem?_erase]
    simp only [Std.LawfulEqCmp.compare_eq_iff_eq]
  · rw [if_neg hempty, if_neg hempty]
    change (keys.assigned.insert other text)[label]? = _
    rw [Std.TreeMap.getElem?_insert]
    simp only [Std.LawfulEqCmp.compare_eq_iff_eq]

theorem assigned_read (keys : Keys) : keys.read.2.assigned = keys.assigned := by
  unfold read
  split <;> rfl

theorem assigned_send (keys : Keys) (stroke : List UInt8) : (keys.send stroke).assigned = keys.assigned := by
  unfold send
  dsimp only
  split <;> rfl

theorem assigned?_use (keys : Keys) (u : Use) (label : String) :
    (keys.use u).assigned? label = assignedBy label (keys.assigned? label) u := by
  cases u with
  | assign other text => exact assigned?_assign keys label other text
  | send stroke => exact congrArg (·[label]?) (assigned_send keys stroke)
  | read => exact congrArg (·[label]?) (assigned_read keys)
  | sendBreak => rfl
  | clearBreak => rfl

theorem assigned?_afterUses (uses : List Use) (label : String) :
    (afterUses uses).assigned? label = textAfter uses label := by
  have huses : ∀ keys : Keys, (uses.foldl use keys).assigned? label =
      uses.foldl (assignedBy label) (keys.assigned? label) := by
    induction uses with
    | nil => exact fun _ => rfl
    | cons first rest ih =>
        intro keys
        rw [List.foldl_cons, List.foldl_cons, ih, assigned?_use]
  exact huses {}

theorem translate_afterUses (uses : List Use) (stroke : List UInt8) :
    (afterUses uses).translate stroke = meaningAfter uses stroke := by
  have htexts : (afterUses uses).assigned? = textAfter uses := funext (assigned?_afterUses uses)
  unfold translate meaningAfter textFor?
  split
  · rw [if_pos ⟨by simp, rfl⟩, htexts]
    rfl
  · rename_i hother
    rw [if_neg]
    rintro ⟨hlength, hhead⟩
    match stroke, hhead with
    | [_], _ => simp at hlength
    | _ :: next :: rest, hhead => exact hother next rest (by simpa using hhead)

end Texts

/-- **The keyboard keeps the order of its bytes and drops strokes only whole.** Whatever senders, the
program and the reader do one after the other: the bytes that were read, and after them those that wait,
are the strokes that were taken in, one after the other. A stroke stands for what its key means when it
comes. It is dropped exactly if it stands for nothing or twenty strokes wait, the one being read apart;
what is dropped leaves nothing, and what is taken in goes whole to the end. The reader gets the oldest byte
that waits, and none only if no byte waits. -/
theorem bytes_in_order (uses : List Use) :
    given {} uses ++ (afterUses uses).waiting = (taken {} uses).flatten ∧
    (∀ stroke, (afterUses uses).translate stroke = meaningAfter uses stroke) ∧
    (∀ stroke,
      if meaningAfter uses stroke = [] ∨ (afterUses uses).queue.length = 20 then
        (afterUses uses).takenBy (.send stroke) = [] ∧
          ((afterUses uses).send stroke).queue = (afterUses uses).queue ∧
          ((afterUses uses).send stroke).unread = (afterUses uses).unread
      else
        (afterUses uses).takenBy (.send stroke) = [meaningAfter uses stroke] ∧
          ((afterUses uses).send stroke).queue = (afterUses uses).queue ++ [meaningAfter uses stroke] ∧
          ((afterUses uses).send stroke).unread = (afterUses uses).unread) ∧
    (afterUses uses).queue.length ≤ 20 ∧
    (afterUses uses).read.1 = (afterUses uses).waiting.head? := by
  have hsound := sound_afterUses uses
  refine ⟨given_append_waiting sound_new uses, translate_afterUses uses,
    fun stroke => ?_, hsound.length, (read_eq hsound).1⟩
  have hmeaning := translate_afterUses uses stroke
  split
  · rename_i hdropped
    have hadmits : ¬(afterUses uses).Admits stroke := by
      unfold Admits
      rw [hmeaning]
      exact not_not.mpr hdropped
    exact ⟨if_neg hadmits, send_of_not_admits hadmits⟩
  · rename_i hkept
    have hadmits : (afterUses uses).Admits stroke := by
      unfold Admits
      rwa [hmeaning]
    rw [← hmeaning]
    exact ⟨if_pos hadmits, send_of_admits hsound hadmits⟩

end LineBasic.Keys
