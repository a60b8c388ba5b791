import LineBasic.Proofs.Cells

/-! What the evaluation of an expression leaves in memory. A call of a function puts its arguments into
variables of the program and gives these their values back afterwards. Whatever way the body ends, the
variables then hold what they held; but a call that stops between its arguments, and one that finds no room
to give the values back, leave arguments behind. -/

namespace LineBasic

theorem ValueType.coerce_of_holds {type : ValueType} {value : Value} (h : type.Holds value) :
    type.coerce value = .ok value := by
  cases type with
  | text =>
      cases value with
      | text s =>
          change (if s.length > 255 then throw (.of .stringTooLong) else pure (.text s) : Except Fault Value) = _
          rw [if_neg (Nat.not_lt.mpr h)]
          rfl
      | int _ | single _ | double _ => cases h
  | int =>
      cases value with
      | int n => rfl
      | text _ | single _ | double _ => cases h
  | single =>
      cases value with
      | single x => rfl
      | text _ | int _ | double _ => cases h
  | double =>
      cases value with
      | double x => rfl
      | text _ | int _ | single _ => cases h

/-- Whether values of the name are kept under the same text as those of one of the names. -/
def Name.Among (names : List Name) (name : Name) : Prop := ∃ other ∈ names, other.key = name.key

namespace Memory

variable {memory mid after : Memory} {name other : Name} {value : Value}

/-- Every scalar, those that are told apart excepted, and every element of an array has the value that it
had. -/
def SameApart (changed : Name → Prop) (memory after : Memory) : Prop :=
  ∀ (name : Name) (indices : List Int16), name.IsScanned → (indices = [] → ¬changed name) →
    after.held name indices = memory.held name indices

/-- Every scalar and every element of an array has the value that it had. -/
def SameValues (memory after : Memory) : Prop :=
  ∀ (name : Name) (indices : List Int16), name.IsScanned →
    after.held name indices = memory.held name indices

theorem SameValues.refl (memory : Memory) : SameValues memory memory := fun _ _ _ => rfl

theorem SameValues.trans (h : SameValues memory mid) (h' : SameValues mid after) : SameValues memory after :=
  fun name indices hname => (h' name indices hname).trans (h name indices hname)

theorem sameValues_of_apart {changed : Name → Prop} (h : SameApart changed memory after)
    (hnone : ∀ name, ¬changed name) : SameValues memory after :=
  fun name indices hname => h name indices hname fun _ => hnone name

theorem sameValues_of_cells (h : after.cells = memory.cells) : SameValues memory after := by
  intro name indices _
  rw [held, held, h]

section Apart

variable {changed other : Name → Prop}

theorem SameValues.apart (h : SameValues memory after) : SameApart changed memory after :=
  fun name indices hname _ => h name indices hname

theorem SameApart.fetch (h : SameApart changed memory after) (hname : name.IsScanned) (hsame : ¬changed name) :
    after.fetch name = memory.fetch name :=
  h name [] hname fun _ => hsame

theorem SameApart.trans (h : SameApart changed memory mid) (h' : SameApart changed mid after) :
    SameApart changed memory after :=
  fun name indices hname hsame => (h' name indices hname hsame).trans (h name indices hname hsame)

theorem SameApart.mono (h : SameApart changed memory after) (himp : ∀ name, changed name → other name) :
    SameApart other memory after :=
  fun name indices hname hsame => h name indices hname fun hnil hchanged => hsame hnil (himp name hchanged)

end Apart

/-- Spellings of one name have one value. -/
theorem held_of_key_eq (memory : Memory) (hname : name.IsScanned) (hother : other.IsScanned)
    (hkey : name.key = other.key) (indices : List Int16) :
    memory.held name indices = memory.held other indices := by
  rw [held, held, cellOf, cellOf, hkey, Name.type_eq_of_key_eq hname hother hkey]

/-- A name that is spelled like one of some names has the value that it had, if these have theirs. -/
theorem fetch_of_among {names : List Name} (hnames : ∀ name ∈ names, name.IsScanned)
    (hback : ∀ name ∈ names, after.fetch name = memory.fetch name) (hname : name.IsScanned)
    (hamong : Name.Among names name) : after.fetch name = memory.fetch name := by
  obtain ⟨other, hother, hkey⟩ := hamong
  have hscanned := hnames other hother
  calc
    after.fetch name = after.fetch other := held_of_key_eq after hname hscanned hkey.symm []
    _ = memory.fetch other := hback other hother
    _ = memory.fetch name := held_of_key_eq memory hscanned hname hkey []

/-- Where names are changed first and have their values again at the end, only what was changed in between
stays changed. -/
theorem SameApart.givenBack {names : List Name} (hnames : ∀ name ∈ names, name.IsScanned)
    {changed : Name → Prop} {late : Memory} (hfirst : SameApart (Name.Among names) memory mid)
    (hchanged : SameApart changed mid after) (hlast : SameApart (Name.Among names) after late)
    (hback : ∀ name ∈ names, late.fetch name = memory.fetch name) : SameApart changed memory late := by
  intro name indices hname hsame
  by_cases hamong : indices = [] ∧ Name.Among names name
  · obtain ⟨rfl, hamong⟩ := hamong
    exact fetch_of_among hnames hback hname hamong
  · have hapart : indices = [] → ¬Name.Among names name := fun hnil hmem => hamong ⟨hnil, hmem⟩
    calc
      late.held name indices = after.held name indices := hlast name indices hname hapart
      _ = mid.held name indices := hchanged name indices hname hsame
      _ = memory.held name indices := hfirst name indices hname hapart

theorem Typed.coerce_fetch (h : memory.Typed) (hname : name.IsScanned) :
    name.type.coerce (memory.fetch name) = .ok (memory.fetch name) :=
  ValueType.coerce_of_holds (h.at? (show (Place.scalar name).IsWritten from hname) rfl)

/-- A value is stored into a scalar, unless its type refuses it or memory is full. -/
theorem store_cases (memory : Memory) (name : Name) (value : Value) :
    (∃ found, name.type.coerce value = .ok found ∧
        memory.store name value = .ok { memory with cells := memory.cells.insert name.key found }) ∨
      ∃ fault, memory.store name value = .error fault ∧
        (name.type.coerce value = .error fault ∨
          fault = .of .outOfMemory ∧ maxCells < memory.cells.size) := by
  unfold store
  cases hcoerce : name.type.coerce value with
  | error fault => exact .inr ⟨fault, rfl, .inl rfl⟩
  | ok found =>
      change (∃ other, Except.ok found = .ok other ∧ memory.put name.key found = _) ∨
        ∃ fault, memory.put name.key found = .error fault ∧ _
      unfold put
      split
      · exact .inr ⟨_, rfl, .inr ⟨rfl, ‹_›⟩⟩
      · exact .inl ⟨found, rfl, rfl⟩

theorem Typed.store (h : memory.Typed) (hname : name.IsScanned) (hstore : memory.store name value = .ok after) :
    after.Typed := by
  have hat : memory.storeAt value (.scalar name) = (.ok ⟨⟩, after) := by
    change memory.orSame (memory.store name value) = _
    rw [hstore]
    rfl
  have htyped := h.storeAt (show (Place.scalar name).name.IsScanned from hname) value
  rwa [hat] at htyped

theorem sameApart_of_insert (hname : name.IsScanned)
    (hcells : after.cells = memory.cells.insert name.key value) :
    SameApart (Name.Among [name]) memory after := by
  intro other indices hother hsame
  have hcell : name.key ≠ cellOf other indices := by
    intro heq
    obtain ⟨hkey, hnil⟩ := cellOf_inj hname hother (show cellOf name [] = cellOf other indices from heq)
    exact hsame hnil.symm ⟨name, List.mem_singleton_self name, hkey⟩
  rw [held, held, hcells, getElem?_insert_of_ne hcell]

/-- The values that names have in memory, with the names. -/
def saved (memory : Memory) (names : List Name) : List (Name × Value) :=
  names.map fun name => (name, memory.fetch name)

theorem map_fst_saved (memory : Memory) (names : List Name) : (memory.saved names).map Prod.fst = names := by
  rw [saved, List.map_map]
  exact List.map_id names

theorem forall_mem_saved {names : List Name} (h : ∀ name ∈ names, name.IsScanned) :
    ∀ entry ∈ memory.saved names, entry.1.IsScanned := by
  intro entry hentry
  obtain ⟨name, hname, rfl⟩ := List.mem_map.mp hentry
  exact h name hname

end Memory

namespace Workspace

open Act Memory

variable {work : Workspace}

/-- What storing values one after another does, up to the first that is refused. -/
structure StoredUpTo (done : List (Name × Value)) (work after : Workspace) : Prop where
  typed : work.memory.Typed → after.memory.Typed
  size : work.memory.cells.size ≤ after.memory.cells.size
  others : SameApart (Name.Among (done.map Prod.fst)) work.memory after.memory

theorem storedUpTo_nil (work : Workspace) : StoredUpTo [] work work :=
  ⟨id, Nat.le_refl _, (SameValues.refl _).apart⟩

theorem StoredUpTo.cons {name : Name} {value found : Value} {memory : Memory} {after : Workspace}
    {done : List (Name × Value)} (hname : name.IsScanned)
    (hstore : work.memory.store name value = .ok memory)
    (hmemory : memory = { work.memory with cells := work.memory.cells.insert name.key found })
    (h : StoredUpTo done { work with memory } after) : StoredUpTo ((name, value) :: done) work after where
  typed htyped := h.typed (htyped.store hname hstore)
  size := by
    refine Nat.le_trans ?_ h.size
    rw [hmemory]
    exact Std.TreeMap.size_le_size_insert
  others := by
    have hcells : memory.cells = work.memory.cells.insert name.key found := by rw [hmemory]
    have hfirst := sameApart_of_insert hname hcells
    refine SameApart.trans (hfirst.mono ?_) (h.others.mono ?_)
    · rintro other ⟨same, hmem, hkey⟩
      rw [List.mem_singleton] at hmem
      exact ⟨same, by simp [hmem], hkey⟩
    · rintro other ⟨same, hmem, hkey⟩
      exact ⟨same, List.mem_cons_of_mem _ hmem, hkey⟩

theorem StoredUpTo.append {done : List (Name × Value)} {after : Workspace} (h : StoredUpTo done work after)
    (rest : List (Name × Value)) : StoredUpTo (done ++ rest) work after where
  typed := h.typed
  size := h.size
  others := h.others.mono fun _ ⟨other, hother, hkey⟩ =>
    ⟨other, List.map_append ▸ List.mem_append_left _ hother, hkey⟩

theorem outcome_storeAll_of_ok {name : Name} {value : Value} {rest : List (Name × Value)} {memory : Memory}
    (h : work.memory.store name value = .ok memory) :
    (storeAll ((name, value) :: rest)).outcome work = (storeAll rest).outcome { work with memory } := by
  rw [storeAll, outcome_bind, outcome_get]
  dsimp only
  rw [outcome_bind, outcome_lift, h]
  rfl

theorem outcome_storeAll_of_error {name : Name} {value : Value} {rest : List (Name × Value)} {fault : Fault}
    (h : work.memory.store name value = .error fault) :
    (storeAll ((name, value) :: rest)).outcome work = (.error fault, work) := by
  rw [storeAll, outcome_bind, outcome_get]
  dsimp only
  rw [outcome_bind, outcome_lift, h]

/-- **Values are stored up to the first that is refused**, by its type or because memory is full. -/
theorem storeAll_cases (values : List (Name × Value)) (hnames : ∀ entry ∈ values, entry.1.IsScanned)
    (work : Workspace) :
    ((storeAll values).outcome work).1 = .ok ⟨⟩ ∧
        StoredUpTo values work ((storeAll values).outcome work).2 ∨
      ∃ fault done refused rest, ((storeAll values).outcome work).1 = .error fault ∧
        values = done ++ refused :: rest ∧ StoredUpTo done work ((storeAll values).outcome work).2 ∧
        (refused.1.type.coerce refused.2 = .error fault ∨
          fault = .of .outOfMemory ∧ maxCells < ((storeAll values).outcome work).2.memory.cells.size) := by
  induction values generalizing work with
  | nil => exact .inl ⟨rfl, storedUpTo_nil work⟩
  | cons first rest ih =>
      obtain ⟨name, value⟩ := first
      obtain ⟨hname, hrest⟩ := List.forall_mem_cons.mp hnames
      rcases store_cases work.memory name value with ⟨found, -, hstore⟩ | ⟨fault, hstore, hwhy⟩
      · rw [outcome_storeAll_of_ok hstore]
        rcases ih hrest { work with memory := _ } with
          ⟨hok, hafter⟩ | ⟨fault, done, refused, others, herror, hsplit, hafter, hwhy⟩
        · exact .inl ⟨hok, hafter.cons hname hstore rfl⟩
        · refine .inr ⟨fault, (name, value) :: done, refused, others, herror, ?_,
            hafter.cons hname hstore rfl, hwhy⟩
          rw [hsplit, List.cons_append]
      · rw [outcome_storeAll_of_error hstore]
        exact .inr ⟨fault, [], (name, value), rest, rfl, rfl, storedUpTo_nil work, hwhy⟩

/-- Nothing but the names of the values is stored to, also where one of the values is refused. -/
theorem storedUpTo_storeAll (values : List (Name × Value)) (hnames : ∀ entry ∈ values, entry.1.IsScanned)
    (work : Workspace) : StoredUpTo values work ((storeAll values).outcome work).2 := by
  rcases storeAll_cases values hnames work with ⟨-, hafter⟩ | ⟨fault, done, refused, rest, -, hsplit, hafter, -⟩
  · exact hafter
  · rw [hsplit] at hafter ⊢
    exact hafter.append (refused :: rest)

/-- **Values that were saved are given back**, unless memory is full: no type refuses them. -/
theorem storeAll_saved {memory : Memory} (htyped : memory.Typed) {names : List Name}
    (hnames : ∀ name ∈ names, name.IsScanned) (work : Workspace) :
    (((storeAll (memory.saved names)).outcome work).1 = .ok ⟨⟩ ∧
        ∀ name ∈ names, ((storeAll (memory.saved names)).outcome work).2.memory.fetch name = memory.fetch name) ∨
      ((storeAll (memory.saved names)).outcome work).1 = .error (.of .outOfMemory) ∧
        maxCells < ((storeAll (memory.saved names)).outcome work).2.memory.cells.size := by
  induction names generalizing work with
  | nil => exact .inl ⟨rfl, nofun⟩
  | cons name rest ih =>
      obtain ⟨hname, hrest⟩ := List.forall_mem_cons.mp hnames
      have hcoerce := htyped.coerce_fetch hname
      have hcons : memory.saved (name :: rest) = (name, memory.fetch name) :: memory.saved rest := rfl
      rw [hcons]
      rcases store_cases work.memory name (memory.fetch name) with
        ⟨found, hfound, hstore⟩ | ⟨fault, hstore, hwhy⟩
      · rw [outcome_storeAll_of_ok hstore]
        obtain rfl : memory.fetch name = found := Except.ok.inj (hcoerce.symm.trans hfound)
        refine (ih hrest { work with memory := _ }).imp_left fun hdone => ⟨hdone.1, ?_⟩
        obtain ⟨hok, hback⟩ := hdone
        refine List.forall_mem_cons.mpr ⟨?_, hback⟩
        -- The name is stored to once more if it stands among the rest in another spelling.
        by_cases hamong : name.Among rest
        · exact fetch_of_among hrest hback hname hamong
        · rw [← map_fst_saved memory rest] at hamong
          have hafter := storedUpTo_storeAll (memory.saved rest) (forall_mem_saved hrest)
          exact ((hafter _).others.fetch hname hamong).trans (fetch_insert _ _ _)
      · rw [outcome_storeAll_of_error hstore]
        rcases hwhy with hrefused | ⟨rfl, hfull⟩
        · rw [hcoerce] at hrefused
          cases hrefused
        · exact .inr ⟨rfl, hfull⟩

/-- Whether the name is that of a parameter of some function. -/
def IsParameter (functions : Std.TreeMap String UserFunction) (name : Name) : Prop :=
  ∃ (key : String) (function : UserFunction), functions[key]? = some function ∧ name.Among function.parameters

/-- How an evaluation that fails leaves memory. -/
inductive Mishap (functions : Std.TreeMap String UserFunction) (fault : Fault) (memory after : Memory) : Prop
  /-- Nothing is left behind. -/
  | nothing (h : SameValues memory after)
  /-- A function was called with an argument that the type of its parameter refuses: the arguments in
  front of it stay in their parameters. -/
  | refused {key : String} {function : UserFunction} {passed rest : List Name} {parameter : Name} {value : Value}
      (hfunction : functions[key]? = some function) (hsplit : function.parameters = passed ++ parameter :: rest)
      (hpassed : passed ≠ []) (hvalue : parameter.type.coerce value = .error fault)
      (h : SameApart (Name.Among passed) memory after)
  /-- Memory is full: parameters keep arguments, because their values cannot be given back. -/
  | full (hfault : fault = .of .outOfMemory) (hsize : maxCells < after.cells.size)
      (h : SameApart (IsParameter functions) memory after)

/-- What evaluation leaves: with a value, all variables as they were. -/
structure Spares {α : Type} (functions : Std.TreeMap String UserFunction) (memory : Memory)
    (outcome : Except Fault α × Workspace) : Prop where
  typed : outcome.2.memory.Typed
  value : ∀ value, outcome.1 = .ok value → SameValues memory outcome.2.memory
  fault : ∀ fault, outcome.1 = .error fault → Mishap functions fault memory outcome.2.memory

/-- An action on memory with typed cells is an evaluation, by what it leaves. -/
def Sparing {α : Type} (functions : Std.TreeMap String UserFunction) (action : Act Workspace α) : Prop :=
  ∀ work : Workspace, work.memory.Typed → Spares functions work.memory (action.outcome work)

section Rules

variable {α β : Type} {functions : Std.TreeMap String UserFunction} {memory mid after : Memory} {fault : Fault}

/-- A mishap is carried over to memories between which nothing more is changed. -/
theorem Mishap.carry {late : Memory} (h : Mishap functions fault mid after)
    (hsize : after.cells.size ≤ late.cells.size)
    (hkeep : ∀ changed, SameApart changed mid after → SameApart changed memory late) :
    Mishap functions fault memory late := by
  cases h with
  | nothing hsame => exact .nothing (sameValues_of_apart (hkeep (fun _ => False) hsame.apart) fun _ => id)
  | refused hfunction hsplit hpassed hvalue hafter =>
      exact .refused hfunction hsplit hpassed hvalue (hkeep _ hafter)
  | full hfault hfull hafter => exact .full hfault (Nat.lt_of_lt_of_le hfull hsize) (hkeep _ hafter)

/-- Whatever goes wrong, only parameters of functions keep what they were given. -/
theorem Mishap.apart (h : Mishap functions fault memory after) : SameApart (IsParameter functions) memory after := by
  cases h with
  | nothing hafter => exact hafter.apart
  | refused hfunction hsplit _ _ hafter =>
      refine hafter.mono fun name ⟨other, hother, hkey⟩ => ⟨_, _, hfunction, other, ?_, hkey⟩
      rw [hsplit]
      exact List.mem_append_left _ hother
  | full _ _ hafter => exact hafter

theorem spares_of_same {result : Except Fault α} {work : Workspace} (htyped : work.memory.Typed)
    (h : SameValues memory work.memory) : Spares functions memory (result, work) :=
  ⟨htyped, fun _ _ => h, fun _ _ => .nothing h⟩

theorem spares_of_mishap {work : Workspace} (htyped : work.memory.Typed)
    (h : Mishap functions fault memory work.memory) :
    Spares functions memory ((.error fault : Except Fault α), work) := by
  refine ⟨htyped, nofun, fun other hother => ?_⟩
  cases hother
  exact h

theorem Spares.carry {result : Except Fault α} {last late : Workspace} (h : Spares functions mid (result, last))
    (htyped : late.memory.Typed) (hsize : last.memory.cells.size ≤ late.memory.cells.size)
    (hkeep : ∀ changed, SameApart changed mid last.memory → SameApart changed memory late.memory) :
    Spares functions memory (result, late) where
  typed := htyped
  value found hfound :=
    sameValues_of_apart (hkeep (fun _ => False) (h.value found hfound).apart) fun _ => id
  fault fault hfault := (h.fault fault hfault).carry hsize hkeep

theorem sparing_pure (value : α) : Sparing functions (pure value) :=
  fun _ htyped => spares_of_same htyped (.refl _)

theorem sparing_throw (fault : Fault) : Sparing functions (throw fault : Act Workspace α) :=
  fun _ htyped => spares_of_same htyped (.refl _)

theorem sparing_lift (result : Except Fault α) : Sparing functions (liftM result : Act Workspace α) :=
  fun _ htyped => spares_of_same htyped (.refl _)

theorem sparing_get : Sparing functions (get : Act Workspace Workspace) :=
  fun _ htyped => spares_of_same htyped (.refl _)

theorem Spares.bind {action : Act Workspace α} {next : α → Act Workspace β} {work : Workspace}
    (h : Spares functions memory (action.outcome work)) (hnext : ∀ value, Sparing functions (next value)) :
    Spares functions memory ((action >>= next).outcome work) := by
  rw [outcome_bind]
  revert h
  rcases action.outcome work with ⟨fault | value, mid⟩
  · exact fun h => ⟨h.typed, nofun, fun _ heq => h.fault _ (by cases heq; rfl)⟩
  · intro h
    have hsame := h.value value rfl
    have hsecond := hnext value mid h.typed
    exact hsecond.carry hsecond.typed (Nat.le_refl _) fun _ hchanged => hsame.apart.trans hchanged

theorem Sparing.bind {action : Act Workspace α} {next : α → Act Workspace β} (h : Sparing functions action)
    (hnext : ∀ value, Sparing functions (next value)) : Sparing functions (action >>= next) :=
  fun work htyped => (h work htyped).bind hnext

theorem sparing_fetchElement (name : Name) (values : List Value) :
    Sparing functions (onMemory (Memory.fetchElement name values)) := by
  intro work htyped
  have hcells := (unstored_fetchAt work.memory (.element name values)).cells
  exact spares_of_same (htyped.of_cells hcells) (sameValues_of_cells hcells)

theorem sparing_callBuiltin (name : Name) (arguments : List Value) :
    Sparing functions (callBuiltin name arguments) := by
  intro work htyped
  unfold callBuiltin
  rw [outcome_bind, outcome_get]
  dsimp only
  rw [outcome_bind, outcome_lift]
  cases work.random.call name.spelling arguments <;> exact spares_of_same htyped (.refl _)

mutual

/-- An expression is evaluated without a trace, apart from what its calls leave. -/
theorem sparing_evalWith (scope : Scope) {call : Name → List Value → Act Workspace Value}
    (hcall : ∀ name values, Sparing functions (call name values)) (expr : Expr) :
    Sparing functions (evalWith scope call expr) := by
  cases expr with
  | int _ | single _ | double _ | text _ | truth _ | faultLine | faultCode | cursorRow =>
      unfold evalWith
      exact sparing_pure _
  | scalar name =>
      unfold evalWith
      split
      · exact hcall name []
      · exact sparing_get.bind fun _ => sparing_pure _
  | element name subscripts =>
      unfold evalWith
      exact (sparing_evalAllWith scope hcall subscripts).bind fun _ => sparing_fetchElement name _
  | call name arguments =>
      unfold evalWith
      refine (sparing_evalAllWith scope hcall arguments).bind fun values => ?_
      split
      · exact hcall name values
      · exact sparing_callBuiltin name values
  | unary op operand =>
      unfold evalWith
      exact (sparing_evalWith scope hcall operand).bind fun _ => sparing_lift _
  | binary op left right =>
      unfold evalWith
      refine (sparing_evalWith scope hcall left).bind fun _ => ?_
      exact (sparing_evalWith scope hcall right).bind fun _ => sparing_lift _

theorem sparing_evalAllWith (scope : Scope) {call : Name → List Value → Act Workspace Value}
    (hcall : ∀ name values, Sparing functions (call name values)) (exprs : List Expr) :
    Sparing functions (evalAllWith scope call exprs) := by
  cases exprs with
  | nil =>
      unfold evalAllWith
      exact sparing_pure _
  | cons expr rest =>
      unfold evalAllWith
      refine (sparing_evalWith scope hcall expr).bind fun _ => ?_
      exact (sparing_evalAllWith scope hcall rest).bind fun _ => sparing_pure _

end

theorem sparing_deeper {action : Act Workspace α} (h : Sparing functions action) :
    Sparing functions (deeper action) := by
  intro work htyped
  have hinner := h { work with depth := work.depth + 1 } htyped
  rw [outcome_deeper]
  exact ⟨hinner.typed, hinner.value, hinner.fault⟩

theorem Spares.apart {outcome : Except Fault α × Workspace} (h : Spares functions memory outcome) :
    SameApart (IsParameter functions) memory outcome.2.memory := by
  rcases outcome with ⟨fault | value, after⟩
  · exact (h.fault fault rfl).apart
  · exact (h.value value rfl).apart

end Rules

section Call

variable {functions : Std.TreeMap String UserFunction} {key : String} {function : UserFunction}
  {body : Act Workspace Value}

/-- Carries out a body, and gives the parameters the values back that they have in memory. -/
def givingBack (memory : Memory) (parameters : List Name) (body : Act Workspace Value) : Act Workspace Value := do
  let result ← body.attempt
  storeAll (memory.saved parameters)
  liftM result

/-- Passes arguments to the parameters that get their values back afterwards. -/
def passing (memory : Memory) (parameters : List Name) (arguments : List Value) (body : Act Workspace Value) :
    Act Workspace Value := do
  storeAll (parameters.zip arguments)
  givingBack memory parameters body

/-- A call that stops between its arguments. -/
theorem mishap_of_refused (hfunction : functions[key]? = some function) {work after : Workspace}
    {arguments : List Value} (hlength : function.parameters.length = arguments.length) {fault : Fault}
    {done rest : List (Name × Value)} {refused : Name × Value}
    (hsplit : function.parameters.zip arguments = done ++ refused :: rest) (hafter : StoredUpTo done work after)
    (hwhy : refused.1.type.coerce refused.2 = .error fault ∨
      fault = .of .outOfMemory ∧ maxCells < after.memory.cells.size) :
    Mishap functions fault work.memory after.memory := by
  have hparameters : function.parameters = done.map Prod.fst ++ refused.1 :: rest.map Prod.fst := by
    rw [← List.map_fst_zip (Nat.le_of_eq hlength), hsplit, List.map_append, List.map_cons]
  by_cases hdone : done = []
  · subst hdone
    exact .nothing (sameValues_of_apart hafter.others fun _ ⟨_, hmem, _⟩ => nomatch hmem)
  · rcases hwhy with hrefused | ⟨rfl, hfull⟩
    · exact .refused hfunction hparameters (by simpa using hdone) hrefused hafter.others
    · refine .full rfl hfull (hafter.others.mono fun name ⟨other, hother, hkey⟩ => ?_)
      refine ⟨key, function, hfunction, other, ?_, hkey⟩
      rw [hparameters]
      exact List.mem_append_left _ hother

/-- The end of a call: the body is carried out, and the parameters get the values back that they had before
the arguments. -/
theorem spares_givingBack (hfunction : functions[key]? = some function)
    (hnames : ∀ name ∈ function.parameters, name.IsScanned) (hbody : Sparing functions body) {memory : Memory}
    (hmemory : memory.Typed) {work : Workspace} (htyped : work.memory.Typed)
    (hpassed : SameApart (Name.Among function.parameters) memory work.memory) :
    Spares functions memory ((givingBack memory function.parameters body).outcome work) := by
  have hinner := hbody work htyped
  unfold givingBack
  rw [outcome_bind, outcome_attempt]
  dsimp only
  generalize body.outcome work = ended at hinner
  obtain ⟨result, last⟩ := ended
  have hrestored := storedUpTo_storeAll (memory.saved function.parameters) (forall_mem_saved hnames) last
  have hothers := hrestored.others
  rw [map_fst_saved] at hothers
  rcases storeAll_saved hmemory hnames last with ⟨hok, hback⟩ | ⟨hfull, hsize⟩
  · rw [outcome_bind_of_ok hok, outcome_lift]
    exact hinner.carry (hrestored.typed hinner.typed) hrestored.size
      fun changed hchanged => hpassed.givenBack hnames hchanged hothers hback
  · rw [outcome_bind_of_error hfull]
    have hparameter : ∀ name, Name.Among function.parameters name → IsParameter functions name :=
      fun name hamong => ⟨key, function, hfunction, hamong⟩
    refine spares_of_mishap (hrestored.typed hinner.typed) (.full rfl hsize ?_)
    exact (hpassed.mono hparameter).trans (hinner.apart.trans (hothers.mono hparameter))

/-- **A call with its arguments leaves no trace, or one of two**: it stops between its arguments, or it
finds no room to give the values back. -/
theorem spares_passing (hfunction : functions[key]? = some function)
    (hnames : ∀ name ∈ function.parameters, name.IsScanned) (hbody : Sparing functions body)
    {arguments : List Value} (hlength : function.parameters.length = arguments.length) {work : Workspace}
    (htyped : work.memory.Typed) :
    Spares functions work.memory
      ((passing work.memory function.parameters arguments body).outcome work) := by
  have hentries : ∀ entry ∈ function.parameters.zip arguments, entry.1.IsScanned :=
    fun entry hentry => hnames _ (List.of_mem_zip hentry).1
  unfold passing
  rcases storeAll_cases _ hentries work with
    ⟨hok, hpassed⟩ | ⟨fault, done, refused, rest, herror, hsplit, hafter, hwhy⟩
  · have hothers := hpassed.others
    rw [List.map_fst_zip (Nat.le_of_eq hlength)] at hothers
    rw [outcome_bind_of_ok hok]
    exact spares_givingBack hfunction hnames hbody htyped (hpassed.typed htyped) hothers
  · rw [outcome_bind_of_error herror]
    exact spares_of_mishap (hafter.typed htyped) (mishap_of_refused hfunction hlength hsplit hafter hwhy)

end Call

section Eval

variable {scope : Scope}

/-- The parameters of all functions are names as programs write them. -/
def NamesScanned (functions : Std.TreeMap String UserFunction) : Prop :=
  ∀ (key : String) (function : UserFunction), functions[key]? = some function →
    ∀ name ∈ function.parameters, name.IsScanned

theorem functionFor_eq_ok {name : Name} {count : Nat} {function : UserFunction}
    (h : functionFor scope name count = .ok function) :
    scope.functions[name.spelling]? = some function ∧ function.parameters.length = count := by
  unfold functionFor at h
  split at h
  · cases h
  · split at h
    · cases h
      exact ⟨‹_›, ‹_›⟩
    · cases h

/-- **Calls leave what evaluations leave**, however deep they are. -/
theorem sparing_callUser (hnames : NamesScanned scope.functions) (remaining : Nat) (name : Name)
    (arguments : List Value) : Sparing scope.functions (callUser scope remaining name arguments) := by
  induction remaining generalizing name arguments with
  | zero =>
      unfold callUser
      exact (sparing_lift _).bind fun _ => sparing_throw _
  | succ remaining ih =>
      intro work htyped
      unfold callUser
      rw [outcome_bind, outcome_lift]
      cases hfor : functionFor scope name arguments.length with
      | error fault => exact spares_of_same htyped (.refl _)
      | ok function =>
          obtain ⟨hfunction, hlength⟩ := functionFor_eq_ok hfor
          dsimp only
          rw [outcome_bind, outcome_get]
          dsimp only
          split
          · exact spares_of_same htyped (.refl _)
          · have hbody := sparing_deeper (sparing_evalWith scope ih function.body)
            have hpassing := spares_passing hfunction (hnames _ _ hfunction) hbody hlength htyped
            have hcheck : ∀ value : Value, Sparing scope.functions
                (if (name.type == .text) = value.isText then pure value else throw (.of .typeMismatch)) := by
              intro value
              split
              · exact sparing_pure _
              · exact sparing_throw _
            simpa only [passing, givingBack, saved, bind_assoc] using hpassing.bind hcheck

/-- **What evaluating an expression leaves in memory.** -/
theorem sparing_eval (scope : Scope) (hnames : NamesScanned scope.functions) (expr : Expr) :
    Sparing scope.functions (eval scope expr) :=
  sparing_get.bind fun _ => sparing_evalWith scope (sparing_callUser hnames _) expr

theorem sparing_evalAll (scope : Scope) (hnames : NamesScanned scope.functions) (exprs : List Expr) :
    Sparing scope.functions (evalAll scope exprs) :=
  sparing_get.bind fun _ => sparing_evalAllWith scope (sparing_callUser hnames _) exprs

end Eval

end Workspace

end LineBasic
