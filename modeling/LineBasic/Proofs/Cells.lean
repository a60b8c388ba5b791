import LineBasic.Proofs.CellTexts
import LineBasic.Proofs.Footprint

/-! Memory as a set of cells. All scalars and all elements of all arrays are kept in one map. An access to
memory puts a value into one cell or into none, and the text of a cell tells it from all others, so that
cells are independent; and a cell holds values of one type, the one that its name gives. -/

namespace LineBasic

theorem exists_of_bind_eq_ok {α β : Type} {first : Except Fault α} {next : α → Except Fault β} {result : β}
    (h : first >>= next = .ok result) : ∃ value, first = .ok value ∧ next value = .ok result := by
  cases first with
  | error fault => cases h
  | ok value => exact ⟨value, rfl, h⟩

/-- The values that a type has. -/
def ValueType.Holds : ValueType → Value → Prop
  | text, .text s => s.length ≤ 255
  | int, .int _ => True
  | single, .single _ => True
  | double, .double _ => True
  | _, _ => False

theorem ValueType.holds_default (type : ValueType) : type.Holds type.default := by
  cases type with
  | text => exact Nat.zero_le 255
  | int | single | double => trivial

theorem ValueType.holds_coerce {type : ValueType} {value held : Value}
    (h : type.coerce value = .ok held) : type.Holds held := by
  cases type with
  | text =>
      cases value with
      | text s =>
          unfold coerce at h
          obtain ⟨_, hs, h⟩ := exists_of_bind_eq_ok h
          cases hs
          split at h
          · cases h
          · cases h
            exact Nat.le_of_not_lt ‹_›
      | int _ | single _ | double _ => cases h
  | int =>
      obtain ⟨n, -, h⟩ := exists_of_bind_eq_ok h
      cases h
      trivial
  | single =>
      obtain ⟨x, -, h⟩ := exists_of_bind_eq_ok h
      cases h
      trivial
  | double =>
      obtain ⟨x, -, h⟩ := exists_of_bind_eq_ok h
      cases h
      trivial

namespace Memory

/-- A place for a value: a scalar, or an element of an array. -/
inductive Place where
  | scalar (name : Name)
  | element (name : Name) (subscripts : List Value)

namespace Place

def name : Place → Name
  | scalar name => name
  | element name _ => name

/-- The subscripts as integers. -/
def indices : Place → Except Fault (List Int16)
  | scalar _ => .ok []
  | element _ values => Memory.subscripts values

/-- A place as programs write it: its name is found in a text, and an element has a subscript. -/
def IsWritten : Place → Prop
  | scalar name => name.IsScanned
  | element name values => name.IsScanned ∧ values ≠ []

/-- One cell in two spellings: the name is the same, and so are the subscripts. -/
def SameCell (place other : Place) : Prop :=
  place.name.Same other.name ∧ ∃ indices, place.indices = .ok indices ∧ other.indices = .ok indices

end Place

/-- What can be asked of memory. -/
inductive Access where
  | store (place : Place) (value : Value)
  | declare (name : Name) (subscripts : List Value)
  | fetch (place : Place)

def Access.IsWritten : Access → Prop
  | store place _ => place.IsWritten
  | declare name _ => name.IsScanned
  | fetch place => place.IsWritten

/-- The value of a place, and memory after it was asked for. -/
def fetchAt (memory : Memory) : Place → Except Fault Value × Memory
  | .scalar name => (.ok (memory.fetch name), memory)
  | .element name values => (fetchElement name values).outcome memory

/-- Memory after a step that leaves it alone where it fails. -/
def orSame (memory : Memory) : Except Fault Memory → Except Fault Unit × Memory
  | .ok after => (.ok ⟨⟩, after)
  | .error fault => (.error fault, memory)

def storeAt (memory : Memory) (value : Value) : Place → Except Fault Unit × Memory
  | .scalar name => memory.orSame (memory.store name value)
  | .element name values => (storeElement name values value).outcome memory

/-- Memory after an access, and what the access gives: the value that is fetched, or nothing, or a fault. -/
def access (memory : Memory) : Access → Except Fault (Option Value) × Memory
  | .store place value => ((memory.storeAt value place).1.map fun _ => none, (memory.storeAt value place).2)
  | .declare name values =>
      ((memory.orSame (memory.declare name values)).1.map fun _ => none,
        (memory.orSame (memory.declare name values)).2)
  | .fetch place => ((memory.fetchAt place).1.map some, (memory.fetchAt place).2)

/-- Memory after accesses one after another, from the start. -/
def afterAccesses (accesses : List Access) : Memory :=
  accesses.foldl (fun memory asked => (memory.access asked).2) .empty

/-- The value of a place. -/
def at? (memory : Memory) (place : Place) : Except Fault Value := (memory.fetchAt place).1

section Fetch

variable {memory : Memory}

/-- The value in a cell. -/
def held (memory : Memory) (name : Name) (indices : List Int16) : Value :=
  memory.cells[cellOf name indices]?.getD name.type.default

/-- The greatest subscripts of an array, declared or not. -/
def boundsFor (memory : Memory) (name : Name) (indices : List Int16) : List Int16 :=
  memory.dimensions[name.key]?.getD (indices.map fun _ => defaultBound)

/-- Whether an element lies outside its array. -/
def isOutside (memory : Memory) (name : Name) (indices : List Int16) : Bool :=
  (memory.boundsFor name indices).length ≠ indices.length ||
    (indices.zip (memory.boundsFor name indices)).any fun (n, bound) => bound < n

/-- Memory once an array has dimensions. -/
def dimensioned (memory : Memory) (name : Name) (indices : List Int16) : Memory :=
  { memory with dimensions := memory.dimensions.insert name.key (memory.boundsFor name indices) }

theorem outcome_locate (memory : Memory) (name : Name) (values : List Value) :
    (locate name values).outcome memory =
      match subscripts values with
      | .error fault => (.error fault, memory)
      | .ok indices =>
          (if memory.isOutside name indices then .error (.of .subscriptOutOfRange)
            else .ok (cellOf name indices), memory.dimensioned name indices) := by
  unfold locate
  rw [Act.outcome_bind, Act.outcome_lift]
  cases subscripts values with
  | error fault => rfl
  | ok indices =>
      change Act.outcome (if memory.isOutside name indices then _ else _) (memory.dimensioned name indices) = _
      dsimp only
      split <;> rfl

/-- Whether a place can be reached: a scalar always, an element within the bounds of its array. -/
def reaches (memory : Memory) : Place → List Int16 → Bool
  | .scalar _, _ => true
  | .element name _, indices => !memory.isOutside name indices

theorem at?_eq (memory : Memory) (place : Place) :
    memory.at? place =
      match place.indices with
      | .error fault => .error fault
      | .ok indices =>
          if memory.reaches place indices then .ok (memory.held place.name indices)
          else .error (.of .subscriptOutOfRange) := by
  cases place with
  | scalar name => rfl
  | element name values =>
      change ((fetchElement name values).outcome memory).1 = match subscripts values with
        | .error fault => .error fault
        | .ok indices => if !memory.isOutside name indices then .ok (memory.held name indices)
            else .error (.of .subscriptOutOfRange)
      unfold fetchElement
      rw [Act.outcome_bind, outcome_locate]
      cases subscripts values with
      | error fault => rfl
      | ok indices =>
          dsimp only
          cases memory.isOutside name indices <;> rfl

theorem exists_of_at?_eq_ok {place : Place} {value : Value} (h : memory.at? place = .ok value) :
    ∃ indices, place.indices = .ok indices ∧ memory.reaches place indices = true ∧
      value = memory.held place.name indices := by
  rw [at?_eq] at h
  split at h
  · cases h
  · split at h
    · cases h
      exact ⟨_, ‹_›, ‹_›, rfl⟩
    · cases h

end Fetch

section Access

variable {memory after : Memory} {name other : Name} {indices : List Int16}

theorem getElem?_insert_of_ne {β : Type} {map : Std.TreeMap String β} {key found : String} {value : β}
    (h : key ≠ found) : (map.insert key value)[found]? = map[found]? := by
  rw [Std.TreeMap.getElem?_insert, if_neg (by simpa using h)]

theorem boundsFor_congr (hkey : name.key = other.key)
    (hdimensions : after.dimensions[other.key]? = memory.dimensions[other.key]?) :
    after.boundsFor name indices = memory.boundsFor other indices := by
  rw [boundsFor, boundsFor, hkey, hdimensions]

theorem isOutside_congr (hkey : name.key = other.key)
    (hdimensions : after.dimensions[other.key]? = memory.dimensions[other.key]?) :
    after.isOutside name indices = memory.isOutside other indices := by
  rw [isOutside, isOutside, boundsFor_congr hkey hdimensions]

theorem isOutside_dimensioned (memory : Memory) (name : Name) (indices : List Int16) :
    (memory.dimensioned name indices).isOutside name indices = memory.isOutside name indices := by
  have hbounds : (memory.dimensioned name indices).boundsFor name indices = memory.boundsFor name indices := by
    rw [boundsFor, dimensioned, Std.TreeMap.getElem?_insert_self, Option.getD_some]
  rw [isOutside, isOutside, hbounds]

/-- Arrays that have dimensions keep them. -/
def KeepsDimensions (memory after : Memory) : Prop :=
  ∀ (key : String) (bounds : List Int16), memory.dimensions[key]? = some bounds → after.dimensions[key]? = some bounds

theorem keepsDimensions_dimensioned (memory : Memory) (name : Name) (indices : List Int16) :
    KeepsDimensions memory (memory.dimensioned name indices) := by
  intro key bounds hkey
  by_cases hname : name.key = key
  · have hbounds : memory.boundsFor name indices = bounds := by
      rw [boundsFor, hname, hkey, Option.getD_some]
    rw [dimensioned, hname, hbounds, Std.TreeMap.getElem?_insert_self]
  · rw [dimensioned, getElem?_insert_of_ne hname]
    exact hkey

theorem outcome_storeElement (memory : Memory) (name : Name) (values : List Value) (value : Value) :
    (storeElement name values value).outcome memory =
      match subscripts values with
      | .error fault => (.error fault, memory)
      | .ok indices =>
          let ready := memory.dimensioned name indices
          if memory.isOutside name indices then (.error (.of .subscriptOutOfRange), ready)
          else ready.orSame (name.type.coerce value >>= ready.put (cellOf name indices)) := by
  unfold storeElement
  rw [Act.outcome_bind, outcome_locate]
  cases subscripts values with
  | error fault => rfl
  | ok indices =>
      dsimp only
      cases memory.isOutside name indices with
      | true => rfl
      | false =>
          change Act.outcome (liftM (name.type.coerce value) >>= _) (memory.dimensioned name indices) = _
          rw [Act.outcome_bind, Act.outcome_lift]
          cases name.type.coerce value with
          | error fault => rfl
          | ok coerced =>
              change Act.outcome (liftM ((memory.dimensioned name indices).put _ coerced) >>= _)
                (memory.dimensioned name indices) = _
              rw [Act.outcome_bind, Act.outcome_lift]
              change _ = orSame _ ((memory.dimensioned name indices).put (cellOf name indices) coerced)
              cases (memory.dimensioned name indices).put (cellOf name indices) coerced <;> rfl

/-- Every cell is as it was. -/
structure Unstored (memory after : Memory) : Prop where
  cells : after.cells = memory.cells
  dimensions : KeepsDimensions memory after

theorem unstored_refl (memory : Memory) : Unstored memory memory := ⟨rfl, fun _ _ => id⟩

theorem unstored_dimensioned (memory : Memory) (name : Name) (indices : List Int16) :
    Unstored memory (memory.dimensioned name indices) :=
  ⟨rfl, keepsDimensions_dimensioned memory name indices⟩

/-- A value was put into the cell of a place, which can be reached. -/
structure Stored (memory : Memory) (place : Place) (value : Value) (after : Memory) : Prop where
  dimensions : KeepsDimensions memory after
  cell : ∃ indices held, place.indices = .ok indices ∧ place.name.type.coerce value = .ok held ∧
    after.cells = memory.cells.insert (cellOf place.name indices) held ∧
    after.reaches place indices = true

/-- Putting a coerced value into a cell changes that cell, or it fails. -/
theorem orSame_put_cases (memory : Memory) (type : ValueType) (cell : String) (value : Value) :
    (∃ held, type.coerce value = .ok held ∧
        memory.orSame (type.coerce value >>= memory.put cell) =
          (.ok ⟨⟩, { memory with cells := memory.cells.insert cell held })) ∨
      ∃ fault, memory.orSame (type.coerce value >>= memory.put cell) = (.error fault, memory) := by
  cases type.coerce value with
  | error fault => exact .inr ⟨fault, rfl⟩
  | ok held =>
      change (∃ found, Except.ok held = .ok found ∧ memory.orSame (memory.put cell held) = _) ∨
        ∃ fault, memory.orSame (memory.put cell held) = _
      unfold put
      split
      · exact .inr ⟨_, rfl⟩
      · exact .inl ⟨held, rfl, rfl⟩

/-- Memory when a store comes to put its value: the array of an element has dimensions. -/
def readied (memory : Memory) : Place → List Int16 → Memory
  | .scalar _, _ => memory
  | .element name _, indices => memory.dimensioned name indices

/-- **What a store does**, wherever its place is. -/
theorem storeAt_eq (memory : Memory) (value : Value) (place : Place) :
    memory.storeAt value place =
      match place.indices with
      | .error fault => (.error fault, memory)
      | .ok indices =>
          let ready := memory.readied place indices
          if memory.reaches place indices then
            ready.orSame (place.name.type.coerce value >>= ready.put (cellOf place.name indices))
          else (.error (.of .subscriptOutOfRange), ready) := by
  cases place with
  | scalar name => rfl
  | element name values =>
      change (storeElement name values value).outcome memory = match subscripts values with
        | .error fault => (.error fault, memory)
        | .ok indices =>
            let ready := memory.dimensioned name indices
            if !memory.isOutside name indices then
              ready.orSame (name.type.coerce value >>= ready.put (cellOf name indices))
            else (.error (.of .subscriptOutOfRange), ready)
      rw [outcome_storeElement]
      cases subscripts values with
      | error fault => rfl
      | ok indices =>
          dsimp only
          cases memory.isOutside name indices <;> rfl

theorem unstored_readied (memory : Memory) (place : Place) (indices : List Int16) :
    Unstored memory (memory.readied place indices) := by
  cases place with
  | scalar name => exact unstored_refl memory
  | element name values => exact unstored_dimensioned memory name indices

theorem reaches_readied (memory : Memory) (place : Place) (indices : List Int16) :
    (memory.readied place indices).reaches place indices = memory.reaches place indices := by
  cases place with
  | scalar name => rfl
  | element name values => exact congrArg (!·) (isOutside_dimensioned memory name indices)

/-- A store puts its value into the cell, or it fails and leaves every cell as it was. -/
theorem storeAt_cases (memory : Memory) (value : Value) (place : Place) :
    (memory.storeAt value place).1.isOk = true ∧
        Stored memory place value (memory.storeAt value place).2 ∨
      (memory.storeAt value place).1.isOk = false ∧ Unstored memory (memory.storeAt value place).2 := by
  rw [storeAt_eq]
  cases hindices : place.indices with
  | error fault => exact .inr ⟨rfl, unstored_refl memory⟩
  | ok indices =>
      have hready := unstored_readied memory place indices
      dsimp only
      split
      · rename_i hreaches
        rcases orSame_put_cases (memory.readied place indices) place.name.type (cellOf place.name indices) value
          with ⟨held, hheld, heq⟩ | ⟨fault, heq⟩
        · rw [heq]
          refine .inl ⟨rfl, hready.dimensions, indices, held, hindices, hheld, ?_, ?_⟩
          · rw [hready.cells]
          · exact (reaches_readied memory place indices).trans hreaches
        · rw [heq]
          exact .inr ⟨rfl, hready⟩
      · exact .inr ⟨rfl, hready⟩

theorem unstored_fetchAt (memory : Memory) (place : Place) : Unstored memory (memory.fetchAt place).2 := by
  cases place with
  | scalar name => exact unstored_refl memory
  | element name values =>
      change Unstored memory ((fetchElement name values).outcome memory).2
      unfold fetchElement
      rw [Act.outcome_bind, outcome_locate]
      cases subscripts values with
      | error fault => exact unstored_refl memory
      | ok indices =>
          have hready := unstored_dimensioned memory name indices
          dsimp only
          cases memory.isOutside name indices <;> exact hready

theorem unstored_declare (memory : Memory) (name : Name) (values : List Value) :
    Unstored memory (memory.orSame (memory.declare name values)).2 := by
  unfold declare
  split
  · exact unstored_refl memory
  · rename_i hnew
    cases subscripts values with
    | error fault => exact unstored_refl memory
    | ok bounds =>
        refine ⟨rfl, fun key old hold => ?_⟩
        change (memory.dimensions.insert name.key bounds)[key]? = some old
        rw [getElem?_insert_of_ne]
        · exact hold
        · rintro rfl
          rw [Std.TreeMap.contains_eq_isSome_getElem?, hold] at hnew
          exact hnew rfl

/-- **What an access does to the cells.** -/
theorem access_cases (memory : Memory) (asked : Access) :
    (∃ place value, asked = .store place value ∧ (memory.access asked).1.isOk = true ∧
        Stored memory place value (memory.access asked).2) ∨
      (∀ place value, asked = .store place value → (memory.access asked).1.isOk = false) ∧
        Unstored memory (memory.access asked).2 := by
  cases asked with
  | store place value =>
      have hok : (memory.access (.store place value)).1.isOk = (memory.storeAt value place).1.isOk := by
        change ((memory.storeAt value place).1.map _).isOk = _
        cases (memory.storeAt value place).1 <;> rfl
      rcases storeAt_cases memory value place with ⟨hdone, hstored⟩ | ⟨hfailed, hunstored⟩
      · exact .inl ⟨place, value, rfl, hok.trans hdone, hstored⟩
      · exact .inr ⟨fun _ _ _ => hok.trans hfailed, hunstored⟩
  | declare name values => exact .inr ⟨nofun, unstored_declare memory name values⟩
  | fetch place => exact .inr ⟨nofun, unstored_fetchAt memory place⟩

end Access

section Cells

variable {memory after : Memory} {place other : Place}

theorem Place.IsWritten.name (h : place.IsWritten) : place.name.IsScanned := by
  cases place with
  | scalar name => exact h
  | element name values => exact h.1

theorem held_insert_self {name other : Name} {indices : List Int16} {value : Value}
    (hcells : after.cells = memory.cells.insert (cellOf name indices) value)
    (hkey : name.key = other.key) : after.held other indices = value := by
  have hcell : cellOf other indices = cellOf name indices := by
    rw [cellOf, cellOf, hkey]
  rw [held, hcells, hcell, Std.TreeMap.getElem?_insert_self, Option.getD_some]

theorem fetch_insert (memory : Memory) (name : Name) (value : Value) :
    ({ memory with cells := memory.cells.insert name.key value } : Memory).fetch name = value := by
  rw [fetch, Std.TreeMap.getElem?_insert_self, Option.getD_some]

theorem ne_nil_of_subscripts {values : List Value} {indices : List Int16}
    (h : subscripts values = .ok indices) (hvalues : values ≠ []) : indices ≠ [] := by
  cases values with
  | nil => exact absurd rfl hvalues
  | cons value rest =>
      obtain ⟨n, -, h⟩ := exists_of_bind_eq_ok h
      split at h
      · cases h
      · obtain ⟨others, -, h⟩ := exists_of_bind_eq_ok h
        cases h
        exact List.cons_ne_nil n others

/-- A cell is reached in all its spellings: a place with subscripts is an element in each of them. -/
theorem reaches_of_same (hother : other.IsWritten) {indices : List Int16}
    (hplace : place.indices = .ok indices) (hsame : other.indices = .ok indices)
    (hkey : place.name.key = other.name.key) (hreaches : memory.reaches place indices = true) :
    memory.reaches other indices = true := by
  cases other with
  | scalar name => rfl
  | element name values =>
      cases place with
      | scalar _ =>
          cases hplace
          exact absurd rfl (ne_nil_of_subscripts hsame hother.2)
      | element first _ =>
          have hsamekey : name.key = first.key := hkey.symm
          change (!memory.isOutside name indices) = true
          rw [isOutside_congr hsamekey rfl]
          exact hreaches

/-- **A store is seen in its cell**, in every spelling of it. -/
theorem Stored.at?_of_same {value : Value} (h : Stored memory place value after) (hplace : place.IsWritten)
    (hother : other.IsWritten) (hsame : place.SameCell other) :
    ∃ found, place.name.type.coerce value = .ok found ∧ after.at? other = .ok found := by
  obtain ⟨indices, found, hindices, hcoerce, hcells, hreaches⟩ := h.cell
  obtain ⟨hname, shared, hfirst, hsecond⟩ := hsame
  have hshared : shared = indices := Except.ok.inj (hfirst.symm.trans hindices)
  have hkey := (Name.same_iff_key_eq hplace.name hother.name).mp hname
  subst hshared
  refine ⟨found, hcoerce, ?_⟩
  rw [at?_eq, hsecond]
  dsimp only
  rw [if_pos (reaches_of_same hother hfirst hsecond hkey hreaches), held_insert_self hcells hkey]

/-- **A store is seen in no other cell.** -/
theorem Stored.held_of_not_same {value : Value} (h : Stored memory place value after)
    (hplace : place.IsWritten) (hother : other.IsWritten) (hsame : ¬place.SameCell other) {indices : List Int16}
    (hindices : other.indices = .ok indices) :
    after.held other.name indices = memory.held other.name indices := by
  obtain ⟨stored, found, hstored, -, hcells, -⟩ := h.cell
  have hcell : cellOf place.name stored ≠ cellOf other.name indices := by
    intro heq
    obtain ⟨hkey, rfl⟩ := cellOf_inj hplace.name hother.name heq
    exact hsame ⟨(Name.same_iff_key_eq hplace.name hother.name).mpr hkey, stored, hstored, hindices⟩
  rw [held, held, hcells, getElem?_insert_of_ne hcell]

/-- Every cell of a name holds values of its type. -/
def Typed (memory : Memory) : Prop :=
  ∀ (name : Name) (indices : List Int16) (value : Value), name.IsScanned →
    memory.cells[cellOf name indices]? = some value → name.type.Holds value

theorem Typed.at? (h : Typed memory) (hplace : place.IsWritten) {value : Value}
    (hvalue : memory.at? place = .ok value) : place.name.type.Holds value := by
  obtain ⟨indices, -, -, rfl⟩ := exists_of_at?_eq_ok hvalue
  unfold held
  cases hcell : memory.cells[cellOf place.name indices]? with
  | none => exact place.name.type.holds_default
  | some found => exact h place.name indices found hplace.name hcell

theorem Typed.of_cells (h : Typed memory) (hcells : after.cells = memory.cells) : Typed after :=
  fun name indices value hname hvalue => h name indices value hname (hcells ▸ hvalue)

/-- A store puts a value of the right type into the cell. -/
theorem Typed.stored {value : Value} (h : Typed memory) (hplace : place.name.IsScanned)
    (hstored : Stored memory place value after) : Typed after := by
  intro name indices value hname hvalue
  obtain ⟨subscripts, found, -, hcoerce, hcells, -⟩ := hstored.cell
  rw [hcells] at hvalue
  by_cases hcell : cellOf place.name subscripts = cellOf name indices
  · rw [hcell, Std.TreeMap.getElem?_insert_self] at hvalue
    cases hvalue
    rw [← Name.type_eq_of_key_eq hplace hname (cellOf_inj hplace hname hcell).1]
    exact ValueType.holds_coerce hcoerce
  · rw [getElem?_insert_of_ne hcell] at hvalue
    exact h name indices value hname hvalue

theorem Typed.storeAt (h : Typed memory) (hplace : place.name.IsScanned) (value : Value) :
    Typed (memory.storeAt value place).2 := by
  rcases storeAt_cases memory value place with ⟨-, hstored⟩ | ⟨-, hunstored⟩
  · exact h.stored hplace hstored
  · exact h.of_cells hunstored.cells

theorem Typed.access (h : Typed memory) {asked : Access} (hasked : asked.IsWritten) :
    Typed (memory.access asked).2 := by
  rcases access_cases memory asked with ⟨place, stored, rfl, -, hstored⟩ | ⟨-, hunstored⟩
  · exact h.stored (Place.IsWritten.name hasked) hstored
  · exact h.of_cells hunstored.cells

/-- What accesses keep holds of the memory they lead to. -/
theorem afterAccesses_induction {motive : Memory → Prop} (hstart : motive .empty)
    (hstep : ∀ (memory : Memory) (asked : Access), asked.IsWritten → motive memory → motive (memory.access asked).2)
    {accesses : List Access} (h : ∀ asked ∈ accesses, asked.IsWritten) : motive (afterAccesses accesses) := by
  have hrun : ∀ memory : Memory, motive memory →
      motive (accesses.foldl (fun memory asked => (memory.access asked).2) memory) := by
    induction accesses with
    | nil => exact fun _ => id
    | cons asked rest ih =>
        obtain ⟨hasked, hrest⟩ := List.forall_mem_cons.mp h
        exact fun memory hmemory => ih hrest _ (hstep memory asked hasked hmemory)
  exact hrun .empty hstart

theorem typed_afterAccesses {accesses : List Access} (h : ∀ asked ∈ accesses, asked.IsWritten) :
    Typed (afterAccesses accesses) := by
  refine afterAccesses_induction (fun name indices value _ hvalue => ?_) (fun _ _ hasked htyped => htyped.access hasked) h
  rw [Memory.empty, Std.TreeMap.getElem?_emptyc] at hvalue
  cases hvalue

/-- An access that puts nothing into the cell of a place leaves the value there alone. -/
theorem held_access {asked : Access} (hasked : asked.IsWritten) (hother : other.IsWritten)
    (hmiss : ∀ place value, asked = .store place value → (memory.access asked).1.isOk = true →
      ¬place.SameCell other) {indices : List Int16} (hindices : other.indices = .ok indices) :
    (memory.access asked).2.held other.name indices = memory.held other.name indices := by
  rcases access_cases memory asked with ⟨place, value, rfl, hok, hstored⟩ | ⟨-, hunstored⟩
  · exact hstored.held_of_not_same hasked hother (hmiss place value rfl hok) hindices
  · rw [held, held, hunstored.cells]

theorem keepsDimensions_access (memory : Memory) (asked : Access) :
    KeepsDimensions memory (memory.access asked).2 := by
  rcases access_cases memory asked with ⟨place, value, -, -, hstored⟩ | ⟨-, hunstored⟩
  · exact hstored.dimensions
  · exact hunstored.dimensions

/-- An array with dimensions is reached as before. -/
theorem KeepsDimensions.reaches (h : KeepsDimensions memory after)
    (hknown : other = .scalar other.name ∨ memory.dimensions.contains other.name.key = true)
    (indices : List Int16) : after.reaches other indices = memory.reaches other indices := by
  cases other with
  | scalar name => rfl
  | element name values =>
      rcases hknown with hscalar | hknown
      · cases hscalar
      · rw [Std.TreeMap.contains_eq_isSome_getElem?] at hknown
        obtain ⟨bounds, hbounds⟩ := Option.isSome_iff_exists.mp hknown
        change memory.dimensions[name.key]? = some bounds at hbounds
        change (!after.isOutside name indices) = (!memory.isOutside name indices)
        rw [isOutside_congr rfl ((h _ _ hbounds).trans hbounds.symm)]

/-- **Memory is a set of independent typed cells.** After any accesses, a value that is fetched has the type
of its name. A store that succeeds is seen in its cell, as the value that the type makes of it. And an
access changes the value of no other cell, and none at all if it fails: what is fetched before it and after
it is the same. A fetch can only come to fail where the access gave an array its dimensions. -/
theorem cells_are_independent {accesses : List Access} (h : ∀ asked ∈ accesses, asked.IsWritten) :
    (∀ place value, place.IsWritten → (afterAccesses accesses).at? place = .ok value →
      place.name.type.Holds value) ∧
    ∀ asked given after, asked.IsWritten → (afterAccesses accesses).access asked = (given, after) →
      (∀ place value other, asked = .store place value → given.isOk = true → other.IsWritten →
        place.SameCell other →
        ∃ found, place.name.type.coerce value = .ok found ∧ after.at? other = .ok found) ∧
      ∀ other, other.IsWritten →
        (∀ place value, asked = .store place value → given.isOk = true → ¬place.SameCell other) →
        (∀ old new, (afterAccesses accesses).at? other = .ok old → after.at? other = .ok new → new = old) ∧
        (other = .scalar other.name ∨
            (afterAccesses accesses).dimensions.contains other.name.key = true →
          after.at? other = (afterAccesses accesses).at? other) := by
  have htyped := typed_afterAccesses h
  refine ⟨fun place value hplace => htyped.at? hplace, fun asked given after hasked haccess => ?_⟩
  generalize afterAccesses accesses = before at haccess
  have hgiven : given = (before.access asked).1 := by rw [haccess]
  have hafter : after = (before.access asked).2 := by rw [haccess]
  subst hgiven hafter
  constructor
  · rintro place value other rfl hok hother hsame
    rcases access_cases before (.store place value) with ⟨_, _, heq, -, hstored⟩ | ⟨hfailed, -⟩
    · cases heq
      exact hstored.at?_of_same hasked hother hsame
    · rw [hfailed place value rfl] at hok
      cases hok
  · intro other hother hmiss
    constructor
    · intro old new hold hnew
      obtain ⟨indices, hindices, -, rfl⟩ := exists_of_at?_eq_ok hold
      obtain ⟨shared, hshared, -, rfl⟩ := exists_of_at?_eq_ok hnew
      cases hindices.symm.trans hshared
      exact held_access hasked hother hmiss hindices
    · intro hknown
      rw [at?_eq, at?_eq]
      cases hindices : other.indices with
      | error fault => rfl
      | ok indices =>
          dsimp only
          rw [held_access hasked hother hmiss hindices,
            (keepsDimensions_access before asked).reaches hknown]

/-- A scalar and an array of one name, the array with dimensions from an element that was refused, and an
integer of that name. -/
def crowded : List Access :=
  [.store (.scalar ⟨"A"⟩) (.int 1), .fetch (.element ⟨"A!"⟩ [.int 11]),
    .store (.scalar ⟨"A%"⟩) (.int 4)]

/-- A store into the array. -/
def oneMore : Access := .store (.element ⟨"A!"⟩ [.int 1]) (.int 5)

theorem cells_are_independent_crowded :
    (∀ asked ∈ crowded, asked.IsWritten) ∧ ((afterAccesses crowded).access oneMore).1.isOk = true ∧
      ((afterAccesses crowded).access oneMore).2.at? (.element ⟨"A"⟩ [.int 1]) = .ok (.single 5) ∧
      ((afterAccesses crowded).access oneMore).2.at? (.scalar ⟨"A"⟩) =
        (afterAccesses crowded).at? (.scalar ⟨"A"⟩) := by
  have hplain : Name.IsScanned ⟨"A"⟩ := Name.isScanned_of_spelling (by decide +kernel)
  have hmarked : Name.IsScanned ⟨"A!"⟩ := Name.isScanned_of_spelling (by decide +kernel)
  have hint : Name.IsScanned ⟨"A%"⟩ := Name.isScanned_of_spelling (by decide +kernel)
  have hcrowded : ∀ asked ∈ crowded, asked.IsWritten := by
    simp only [crowded, List.forall_mem_cons, List.not_mem_nil, false_implies, implies_true, and_true]
    exact ⟨hplain, ⟨hmarked, by simp⟩, hint⟩
  have helement : oneMore.IsWritten := ⟨hmarked, by simp⟩
  have hok : ((afterAccesses crowded).access oneMore).1.isOk = true := by decide +kernel
  obtain ⟨-, haccess⟩ := cells_are_independent hcrowded
  obtain ⟨hseen, hothers⟩ := haccess oneMore _ _ helement rfl
  refine ⟨hcrowded, hok, ?_, ?_⟩
  · obtain ⟨found, hfound, hat⟩ := hseen _ _ (.element ⟨"A"⟩ [.int 1]) rfl hok ⟨hplain, by simp⟩
      ⟨.inr (.inl rfl), [1], rfl, rfl⟩
    have hcoerce : ValueType.coerce .single (.int 5) = .ok (.single 5) := by decide +kernel
    exact hat.trans (hfound.symm.trans hcoerce)
  · refine (hothers (.scalar ⟨"A"⟩) hplain ?_).2 (.inl rfl)
    rintro place value heq - ⟨-, indices, hindices, hnone⟩
    cases heq
    cases hnone
    cases hindices

end Cells

end Memory

end LineBasic
