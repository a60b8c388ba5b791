import LineBasic.Proofs.Cells

/-! Full memory. The room for cells is tested before each store and whatever cell the value goes to, so that
full memory refuses a new value to cells that hold one already. Below the limit a cell that holds a value
takes every value of its type, and memory does not grow. -/

namespace LineBasic

theorem bind_ne_error {α β : Type} {first : Except Fault α} {next : α → Except Fault β} {fault : Fault}
    (hfirst : first ≠ .error fault) (hnext : ∀ value, next value ≠ .error fault) :
    first >>= next ≠ .error fault := by
  cases first with
  | error other => exact fun h => hfirst (congrArg Except.error (Except.error.inj h))
  | ok value => exact hnext value

section Refused

theorem Value.toInt_ne_outOfMemory (value : Value) : value.toInt ≠ .error (.of .outOfMemory) := by
  have hnumber : ∀ exact, intOf exact ≠ .error (.of .outOfMemory) := by
    intro exact
    unfold intOf
    split
    · split <;> nofun
    · nofun
  cases value with
  | int n => nofun
  | single x => exact hnumber _
  | double x => exact hnumber _
  | text s => nofun

theorem Value.toSingle_ne_outOfMemory (value : Value) : value.toSingle ≠ .error (.of .outOfMemory) := by
  cases value with
  | double x =>
      unfold toSingle
      dsimp only
      split <;> nofun
  | int n => nofun
  | single x => nofun
  | text s => nofun

/-- A type refuses a value for its kind or its size. -/
theorem ValueType.coerce_ne_outOfMemory (type : ValueType) (value : Value) :
    type.coerce value ≠ .error (.of .outOfMemory) := by
  cases type with
  | text =>
      apply bind_ne_error
      · cases value <;> nofun
      · intro s
        split <;> nofun
  | int => exact bind_ne_error value.toInt_ne_outOfMemory nofun
  | single => exact bind_ne_error value.toSingle_ne_outOfMemory nofun
  | double =>
      apply bind_ne_error
      · cases value <;> nofun
      · nofun

end Refused

namespace Memory

variable {memory after : Memory} {place : Place} {value found : Value} {indices : List Int16}

section Room

theorem subscripts_ne_outOfMemory (values : List Value) : subscripts values ≠ .error (.of .outOfMemory) := by
  induction values with
  | nil => nofun
  | cons value rest ih =>
      apply bind_ne_error value.toInt_ne_outOfMemory
      intro n
      split
      · nofun
      · exact bind_ne_error ih nofun

theorem Place.indices_ne_outOfMemory (place : Place) : place.indices ≠ .error (.of .outOfMemory) := by
  cases place with
  | scalar name => nofun
  | element name values => exact subscripts_ne_outOfMemory values

/-- A value that its type takes is stored where a place can be reached, as long as there is room. Whether the
cell is new is not asked. -/
theorem storeAt_of_reached (hindices : place.indices = .ok indices)
    (hreaches : memory.reaches place indices = true) (hfound : place.name.type.coerce value = .ok found) :
    memory.storeAt value place =
      if maxCells < memory.cells.size then (.error (.of .outOfMemory), memory.readied place indices)
      else (.ok ⟨⟩, { memory.readied place indices with
        cells := memory.cells.insert (cellOf place.name indices) found }) := by
  have hcells := (unstored_readied memory place indices).cells
  rw [storeAt_eq, hindices]
  dsimp only
  rw [if_pos hreaches, hfound]
  change orSame _ ((memory.readied place indices).put _ found) = _
  unfold put
  rw [hcells]
  by_cases hfull : maxCells < memory.cells.size
  · rw [if_pos hfull, if_pos hfull]
    rfl
  · rw [if_neg hfull, if_neg hfull]
    rfl

theorem storeAt_of_outside (hindices : place.indices = .ok indices) (houtside : ¬memory.reaches place indices = true) :
    memory.storeAt value place = (.error (.of .subscriptOutOfRange), memory.readied place indices) := by
  rw [storeAt_eq, hindices]
  exact if_neg houtside

/-- A store fails for want of memory exactly if it would succeed with more room. -/
theorem storeAt_eq_outOfMemory_iff (memory : Memory) (value : Value) (place : Place) :
    (memory.storeAt value place).1 = .error (.of .outOfMemory) ↔
      maxCells < memory.cells.size ∧ ∃ indices found, place.indices = .ok indices ∧
        memory.reaches place indices = true ∧ place.name.type.coerce value = .ok found := by
  constructor
  · intro hfailed
    cases hindices : place.indices with
    | error fault =>
        rw [storeAt_eq, hindices] at hfailed
        obtain rfl : fault = .of .outOfMemory := Except.error.inj hfailed
        exact absurd hindices place.indices_ne_outOfMemory
    | ok indices =>
        by_cases hreaches : memory.reaches place indices = true
        · cases hfound : place.name.type.coerce value with
          | error fault =>
              rw [storeAt_eq, hindices] at hfailed
              dsimp only at hfailed
              rw [if_pos hreaches, hfound] at hfailed
              obtain rfl : fault = .of .outOfMemory := Except.error.inj hfailed
              exact absurd hfound (ValueType.coerce_ne_outOfMemory _ value)
          | ok found =>
              rw [storeAt_of_reached hindices hreaches hfound] at hfailed
              by_cases hfull : maxCells < memory.cells.size
              · exact ⟨hfull, indices, found, rfl, hreaches, rfl⟩
              · rw [if_neg hfull] at hfailed
                cases hfailed
        · rw [storeAt_of_outside hindices hreaches] at hfailed
          cases hfailed
  · rintro ⟨hfull, indices, found, hindices, hreaches, hfound⟩
    rw [storeAt_of_reached hindices hreaches hfound, if_pos hfull]

/-- Full memory keeps every cell as it is. -/
theorem cells_storeAt_of_full (hfull : maxCells < memory.cells.size) :
    (memory.storeAt value place).2.cells = memory.cells := by
  rcases storeAt_cases memory value place with ⟨hdone, hstored⟩ | ⟨-, hunstored⟩
  · obtain ⟨indices, found, hindices, hfound, -, -⟩ := hstored.cell
    by_cases hreaches : memory.reaches place indices = true
    · rw [storeAt_of_reached hindices hreaches hfound, if_pos hfull] at hdone
      cases hdone
    · rw [storeAt_of_outside hindices hreaches] at hdone
      cases hdone
  · exact hunstored.cells

/-- There are never more cells than fit. -/
theorem size_access (hsize : memory.cells.size ≤ 65536) (asked : Access) :
    (memory.access asked).2.cells.size ≤ 65536 := by
  rcases access_cases memory asked with ⟨place, value, rfl, -, hstored⟩ | ⟨-, hunstored⟩
  · by_cases hfull : maxCells < memory.cells.size
    · rwa [show (memory.access (.store place value)).2.cells = memory.cells from cells_storeAt_of_full hfull]
    · obtain ⟨indices, found, -, -, hcells, -⟩ := hstored.cell
      rw [hcells]
      exact Std.TreeMap.size_insert_le.trans (by unfold maxCells at hfull; omega)
  · rwa [hunstored.cells]

end Room

section Occupied

/-- A place that holds a stored value. -/
def Occupied (memory : Memory) (place : Place) : Prop :=
  ∃ indices, place.indices = .ok indices ∧ memory.cells.contains (cellOf place.name indices) = true

/-- A place whose bounds no access can change: a scalar, or an element of an array that has dimensions. -/
def Settled (memory : Memory) (place : Place) : Prop :=
  place = .scalar place.name ∨ memory.dimensions.contains place.name.key = true

/-- The places that hold values can be reached, now and later. -/
def Anchored (memory : Memory) : Prop :=
  ∀ place indices, place.IsWritten → place.indices = .ok indices →
    memory.cells.contains (cellOf place.name indices) = true →
      memory.Settled place ∧ memory.reaches place indices = true

theorem KeepsDimensions.settled (h : KeepsDimensions memory after) (hplace : memory.Settled place) :
    after.Settled place := by
  apply hplace.imp_right
  intro hknown
  rw [Std.TreeMap.contains_eq_isSome_getElem?] at hknown ⊢
  obtain ⟨bounds, hbounds⟩ := Option.isSome_iff_exists.mp hknown
  rw [h _ _ hbounds, Option.isSome_some]

/-- A store settles the place that it is for. -/
theorem settled_storeAt (hindices : place.indices = .ok indices) :
    (memory.storeAt value place).2.Settled place := by
  cases place with
  | scalar name => exact .inl rfl
  | element name values =>
      have hready : (memory.dimensioned name indices).Settled (.element name values) :=
        .inr Std.TreeMap.contains_insert_self
      rw [storeAt_eq, hindices]
      dsimp only
      split
      · rcases orSame_put_cases (memory.dimensioned name indices) name.type (cellOf name indices) value
          with ⟨held, -, heq⟩ | ⟨fault, heq⟩
        · exact heq ▸ hready
        · exact heq ▸ hready
      · exact hready

theorem Anchored.access (h : Anchored memory) {asked : Access} (hasked : asked.IsWritten) :
    Anchored (memory.access asked).2 := by
  intro other indices hother hindices hcell
  have hdimensions := keepsDimensions_access memory asked
  have hold (hcell : memory.cells.contains (cellOf other.name indices) = true) :
      (memory.access asked).2.Settled other ∧ (memory.access asked).2.reaches other indices = true := by
    obtain ⟨hsettled, hreaches⟩ := h other indices hother hindices hcell
    exact ⟨hdimensions.settled hsettled, (hdimensions.reaches hsettled indices).trans hreaches⟩
  rcases access_cases memory asked with ⟨place, value, rfl, -, hstored⟩ | ⟨-, hunstored⟩
  · obtain ⟨stored, found, hplace, -, hcells, hreaches⟩ := hstored.cell
    rw [hcells, Std.TreeMap.contains_insert, Bool.or_eq_true, beq_iff_eq, Std.LawfulEqCmp.compare_eq_iff_eq] at hcell
    rcases hcell with hnew | hcell
    · obtain ⟨hkey, rfl⟩ := cellOf_inj hasked.name hother.name hnew
      refine ⟨?_, reaches_of_same hother hplace hindices hkey hreaches⟩
      cases other with
      | scalar name => exact .inl rfl
      | element name values =>
          have hsettled : (memory.storeAt value place).2.Settled place := settled_storeAt hplace
          rcases hsettled with hscalar | hknown
          · rw [hscalar] at hplace
            exact absurd (Except.ok.inj hplace).symm (ne_nil_of_subscripts hindices hother.2)
          · exact .inr (hkey ▸ hknown)
    · exact hold hcell
  · exact hold (hunstored.cells ▸ hcell)

theorem anchored_afterAccesses {accesses : List Access} (h : ∀ asked ∈ accesses, asked.IsWritten) :
    Anchored (afterAccesses accesses) := by
  refine afterAccesses_induction (fun place indices _ _ hcell => ?_) (fun _ _ hasked h => h.access hasked) h
  rw [Memory.empty, Std.TreeMap.contains_emptyc] at hcell
  cases hcell

theorem size_afterAccesses {accesses : List Access} (h : ∀ asked ∈ accesses, asked.IsWritten) :
    (afterAccesses accesses).cells.size ≤ 65536 :=
  afterAccesses_induction (motive := fun memory => memory.cells.size ≤ 65536) (Nat.zero_le _)
    (fun _ asked _ hsize => size_access hsize asked) h

end Occupied

section Filling

/-! An array with as many elements as memory has room for. -/

/-- The subscripts of the elements of an array with 256 rows of 256 elements, row by row. -/
def slotIndices (n : Nat) : List Int16 := [Int16.ofNat (n / 256), Int16.ofNat (n % 256)]

/-- The element with these subscripts. -/
def slot (n : Nat) : Place := .element ⟨"A%"⟩ ((slotIndices n).map .int)

/-- The array is declared, and as many of its elements are stored to. -/
def filling (count : Nat) : List Access :=
  .declare ⟨"A%"⟩ [.int 255, .int 255] :: (List.range count).map fun n => .store (slot n) (.int 1)

theorem isScanned_slot : Name.IsScanned ⟨"A%"⟩ := Name.isScanned_of_spelling (by decide +kernel)

theorem isWritten_slot (n : Nat) : (slot n).IsWritten := ⟨isScanned_slot, by simp [slotIndices]⟩

theorem isWritten_filling (count : Nat) : ∀ asked ∈ filling count, asked.IsWritten := by
  rw [filling, List.forall_mem_cons, List.forall_mem_map]
  exact ⟨isScanned_slot, fun n _ => isWritten_slot n⟩

theorem toInt_ofNat_div_mod {n : Nat} (h : n < 65536) :
    (Int16.ofNat (n / 256)).toInt = (n / 256 : Nat) ∧ (Int16.ofNat (n % 256)).toInt = (n % 256 : Nat) :=
  ⟨Int16.toInt_ofNat_of_lt (by omega), Int16.toInt_ofNat_of_lt (by omega)⟩

theorem slotIndices_inj {n m : Nat} (hn : n < 65536) (hm : m < 65536) (h : slotIndices n = slotIndices m) : n = m := by
  obtain ⟨hrow, hcolumn⟩ : Int16.ofNat (n / 256) = Int16.ofNat (m / 256) ∧
      Int16.ofNat (n % 256) = Int16.ofNat (m % 256) := by simpa [slotIndices] using h
  have hrow := congrArg Int16.toInt hrow
  have hcolumn := congrArg Int16.toInt hcolumn
  rw [(toInt_ofNat_div_mod hn).1, (toInt_ofNat_div_mod hm).1] at hrow
  rw [(toInt_ofNat_div_mod hn).2, (toInt_ofNat_div_mod hm).2] at hcolumn
  omega

theorem subscripts_map_int (h : ∀ n ∈ indices, ¬n < 0) : subscripts (indices.map .int) = .ok indices := by
  induction indices with
  | nil => rfl
  | cons n rest ih =>
      obtain ⟨hn, hrest⟩ := List.forall_mem_cons.mp h
      change (if n < 0 then throw _ else (subscripts (rest.map .int) >>= fun others => return n :: others)) = _
      rw [if_neg hn, ih hrest]
      rfl

theorem indices_slot {n : Nat} (h : n < 65536) : (slot n).indices = .ok (slotIndices n) := by
  obtain ⟨hrow, hcolumn⟩ := toInt_ofNat_div_mod h
  apply subscripts_map_int
  simp only [slotIndices, List.forall_mem_cons, List.not_mem_nil, false_implies, implies_true, and_true,
    Int16.lt_iff_toInt_lt, hrow, hcolumn]
  exact ⟨Int.not_lt.mpr (Int.natCast_nonneg _), Int.not_lt.mpr (Int.natCast_nonneg _)⟩

theorem coerce_slot (n : Nat) (value : Int16) : (slot n).name.type.coerce (.int value) = .ok (.int value) := by
  have htype : Name.type ⟨"A%"⟩ = .int := by decide +kernel
  change (Name.type ⟨"A%"⟩).coerce (.int value) = _
  rw [htype]
  rfl

/-- The array has its dimensions, and the first elements of it are all that is stored. -/
structure Filled (memory : Memory) (count : Nat) : Prop where
  size : memory.cells.size = count
  bounds : memory.dimensions[(⟨"A%"⟩ : Name).key]? = some [255, 255]
  contains : ∀ n, n < 65536 → (memory.cells.contains (cellOf ⟨"A%"⟩ (slotIndices n)) = true ↔ n < count)

theorem Filled.reaches {count n : Nat} (hfilled : memory.Filled count) (h : n < 65536) :
    memory.reaches (slot n) (slotIndices n) = true := by
  obtain ⟨hrow, hcolumn⟩ := toInt_ofNat_div_mod h
  change (!memory.isOutside ⟨"A%"⟩ (slotIndices n)) = true
  have hbounds : memory.boundsFor ⟨"A%"⟩ (slotIndices n) = [255, 255] := by
    rw [boundsFor, hfilled.bounds, Option.getD_some]
  have hinside : ¬(255 < Int16.ofNat (n / 256)) ∧ ¬(255 < Int16.ofNat (n % 256)) := by
    have hbound : (255 : Int16).toInt = 255 := rfl
    rw [Int16.lt_iff_toInt_lt, Int16.lt_iff_toInt_lt, hrow, hcolumn, hbound]
    omega
  rw [isOutside, hbounds]
  simp [slotIndices, hinside]

/-- The next element takes a new cell. -/
theorem Filled.store {count : Nat} (h : memory.Filled count) (hcount : count < 65536) :
    (memory.storeAt (.int 1) (slot count)).2.Filled (count + 1) := by
  have hroom : ¬maxCells < memory.cells.size := by
    rw [h.size]
    exact Nat.not_lt.mpr (Nat.le_of_lt_succ hcount)
  have hindices := indices_slot hcount
  have hstore := storeAt_of_reached hindices (h.reaches hcount) (coerce_slot count 1)
  rw [if_neg hroom] at hstore
  have hnew : ¬memory.cells.contains (cellOf ⟨"A%"⟩ (slotIndices count)) = true := by
    rw [h.contains count hcount]
    exact Nat.lt_irrefl count
  rw [hstore]
  constructor
  · exact Std.TreeMap.size_insert.trans ((if_neg hnew).trans (congrArg (· + 1) h.size))
  · exact (unstored_readied memory (slot count) (slotIndices count)).dimensions _ _ h.bounds
  · intro n hn
    show (memory.cells.insert (cellOf ⟨"A%"⟩ (slotIndices count)) _).contains _ = true ↔ _
    rw [Std.TreeMap.contains_insert, Bool.or_eq_true, beq_iff_eq, Std.LawfulEqCmp.compare_eq_iff_eq,
      h.contains n hn, Nat.lt_succ_iff_lt_or_eq, or_comm]
    apply or_congr_right
    constructor
    · intro hcell
      exact (slotIndices_inj hcount hn (cellOf_inj isScanned_slot isScanned_slot hcell).2).symm
    · rintro rfl
      rfl

theorem filled_filling {count : Nat} (hcount : count ≤ 65536) : (afterAccesses (filling count)).Filled count := by
  induction count with
  | zero =>
      have hcells : (afterAccesses (filling 0)).cells = ∅ := rfl
      constructor
      · rw [hcells, Std.TreeMap.size_emptyc]
      · decide +kernel
      · intro n _
        rw [hcells, Std.TreeMap.contains_emptyc]
        exact ⟨nofun, nofun⟩
  | succ count ih =>
      have hsplit : afterAccesses (filling (count + 1)) =
          ((afterAccesses (filling count)).storeAt (.int 1) (slot count)).2 := by
        rw [afterAccesses, filling, List.range_succ, List.map_append, ← List.cons_append, List.foldl_append]
        rfl
      rw [hsplit]
      exact (ih (Nat.le_of_succ_le hcount)).store hcount

end Filling

/-- **A value that replaces another is refused in full memory, and never else.** After any accesses there
are at most 65536 cells. With fewer, a place that holds a stored value takes every value that its type
takes, and no cell is added; with 65536 it refuses every one, and all cells stay as they are. A store fails
for want of memory exactly if there are 65536 cells, the place can be reached and its type takes the value,
whether the cell would be new or not. -/
theorem replacing_fails_iff_full {accesses : List Access} (h : ∀ asked ∈ accesses, asked.IsWritten) :
    (afterAccesses accesses).cells.size ≤ 65536 ∧
    (∀ place value found, place.IsWritten → (afterAccesses accesses).Occupied place →
      place.name.type.coerce value = .ok found →
      if (afterAccesses accesses).cells.size < 65536 then
        ((afterAccesses accesses).storeAt value place).1 = .ok ⟨⟩ ∧
          ((afterAccesses accesses).storeAt value place).2.at? place = .ok found ∧
          ((afterAccesses accesses).storeAt value place).2.cells.size = (afterAccesses accesses).cells.size
      else
        ((afterAccesses accesses).storeAt value place).1 = .error (.of .outOfMemory) ∧
          ((afterAccesses accesses).storeAt value place).2.cells = (afterAccesses accesses).cells) ∧
    ∀ place value, ((afterAccesses accesses).storeAt value place).1 = .error (.of .outOfMemory) ↔
      (afterAccesses accesses).cells.size = 65536 ∧ ∃ indices found, place.indices = .ok indices ∧
        (afterAccesses accesses).reaches place indices = true ∧ place.name.type.coerce value = .ok found := by
  have hanchored := anchored_afterAccesses h
  have hsize := size_afterAccesses h
  generalize afterAccesses accesses = memory at hanchored hsize
  refine ⟨hsize, ?_, fun place value => ?_⟩
  · rintro place value found hplace ⟨indices, hindices, hcell⟩ hfound
    obtain ⟨-, hreaches⟩ := hanchored place indices hplace hindices hcell
    have hstore := storeAt_of_reached hindices hreaches hfound
    split
    · rename_i hroom
      have hnotfull : ¬maxCells < memory.cells.size := Nat.not_lt.mpr (Nat.le_of_lt_succ hroom)
      rw [if_neg hnotfull] at hstore
      refine ⟨congrArg Prod.fst hstore, ?_, ?_⟩
      · rcases storeAt_cases memory value place with ⟨-, hstored⟩ | ⟨hfailed, -⟩
        · have hsame : place.SameCell place :=
            ⟨(Name.same_iff_key_eq hplace.name hplace.name).mpr rfl, indices, hindices, hindices⟩
          obtain ⟨seen, hseen, hat⟩ := hstored.at?_of_same hplace hplace hsame
          rw [hat, ← hseen, hfound]
        · rw [hstore] at hfailed
          cases hfailed
      · rw [hstore]
        exact Std.TreeMap.size_insert.trans (if_pos hcell)
    · rename_i hnoroom
      have hfull : maxCells < memory.cells.size := Nat.not_lt.mp hnoroom
      rw [if_pos hfull] at hstore
      exact ⟨congrArg Prod.fst hstore, cells_storeAt_of_full hfull⟩
  · rw [storeAt_eq_outOfMemory_iff]
    have hfull : maxCells < memory.cells.size ↔ memory.cells.size = 65536 :=
      ⟨fun hmany => Nat.le_antisymm hsize hmany, fun heq => heq ▸ Nat.lt_succ_self maxCells⟩
    rw [hfull]

theorem replacing_fails_iff_full_filling :
    (∀ asked ∈ filling 3, asked.IsWritten) ∧ (afterAccesses (filling 3)).cells.size < 65536 ∧
      (afterAccesses (filling 3)).Occupied (slot 1) ∧
      ((afterAccesses (filling 3)).storeAt (.int 2) (slot 1)).2.at? (slot 1) = .ok (.int 2) := by
  have hfilled : (afterAccesses (filling 3)).Filled 3 := filled_filling (by decide)
  have hroom : (afterAccesses (filling 3)).cells.size < 65536 := by rw [hfilled.size]; decide
  have hcell : (afterAccesses (filling 3)).Occupied (slot 1) :=
    ⟨_, indices_slot (by decide), (hfilled.contains 1 (by decide)).mpr (by decide)⟩
  obtain ⟨-, hstore, -⟩ := replacing_fails_iff_full (isWritten_filling 3)
  have hdone := hstore (slot 1) (.int 2) (.int 2) (isWritten_slot 1) hcell (coerce_slot 1 2)
  rw [if_pos hroom] at hdone
  exact ⟨isWritten_filling 3, hroom, hcell, hdone.2.1⟩

/-- Once all elements are stored to, the first one takes no other value. -/
theorem replacing_in_full_memory :
    (∀ asked ∈ filling 65536, asked.IsWritten) ∧ (afterAccesses (filling 65536)).Occupied (slot 0) ∧
      (slot 0).name.type.coerce (.int 2) = .ok (.int 2) ∧
      ((afterAccesses (filling 65536)).storeAt (.int 2) (slot 0)).1 = .error (.of .outOfMemory) := by
  have hfilled : (afterAccesses (filling 65536)).Filled 65536 := filled_filling (Nat.le_refl _)
  have hfull : maxCells < (afterAccesses (filling 65536)).cells.size := by rw [hfilled.size]; decide
  refine ⟨isWritten_filling 65536, ?_, coerce_slot 0 2, ?_⟩
  · exact ⟨_, indices_slot (by decide), (hfilled.contains 0 (by decide)).mpr (by decide)⟩
  · exact (storeAt_eq_outOfMemory_iff _ _ _).mpr
      ⟨hfull, _, _, indices_slot (by decide), hfilled.reaches (by decide), coerce_slot 0 2⟩

end Memory

end LineBasic
