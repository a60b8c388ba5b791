import LineBasic.Proofs.DataRestart
import LineBasic.Proofs.Sound

/-! What CHAIN hands on to the next program. Cells and dimensions are kept by the text that they are found
by, and the part of it behind the last comma is the name. So the variables and arrays that the old program
names in COMMON keep all they hold, and of the others nothing is left; everything else that a program builds
up is gone when the next one starts. -/

namespace LineBasic

namespace Memory

variable {memory : Memory} {names : List Name} {name : Name}

/-- The end of a text behind its last comma is that of the text behind any comma in it. -/
theorem takeWhile_append_comma (front back : List Char) :
    (front ++ ',' :: back).takeWhile (· != ',') = front.takeWhile (· != ',') := by
  induction front with
  | nil => rfl
  | cons c rest ih =>
      rw [List.cons_append, List.takeWhile_cons, List.takeWhile_cons, ih]

/-- The text of a cell names what it belongs to. -/
theorem cellName_cellOf (h : name.IsScanned) (indices : List Int16) :
    cellName (cellOf name indices) = name.key := by
  suffices hname : ((cellOf name indices).toList.reverse.takeWhile (· != ',')).reverse = name.key.toList by
    rw [cellName, hname, String.ofList_toList]
  induction indices with
  | nil =>
      have hall : ∀ c ∈ name.key.toList.reverse, (c != ',') = true := by
        intro c hc
        rw [bne_iff_ne]
        rintro rfl
        exact Name.comma_not_mem_key h (List.mem_reverse.mp hc)
      change (name.key.toList.reverse.takeWhile (· != ',')).reverse = _
      rw [List.takeWhile_eq_self_iff.mpr hall, List.reverse_reverse]
  | cons n rest ih =>
      rw [toList_cellOf_cons, List.reverse_append, List.reverse_cons, List.append_assoc,
        List.singleton_append, takeWhile_append_comma]
      exact ih

/-- The cells of a name are kept with it. -/
theorem held_retain (h : name.IsScanned) (indices : List Int16) :
    (memory.retain names).held name indices =
      if name.key ∈ names.map Name.key then memory.held name indices else name.type.default := by
  change ((memory.cells.filter _)[cellOf name indices]?).getD _ = _
  rw [Std.TreeMap.getElem?_filter', cellName_cellOf h]
  split
  · rename_i hmem
    rw [List.contains_iff_mem.mpr hmem, held]
    cases memory.cells[cellOf name indices]? <;> rfl
  · rename_i hmem
    rw [Bool.eq_false_iff.mpr (mt List.contains_iff_mem.mp hmem)]
    cases memory.cells[cellOf name indices]? <;> rfl

theorem dimensions_retain (name : Name) :
    (memory.retain names).dimensions[name.key]? =
      if name.key ∈ names.map Name.key then memory.dimensions[name.key]? else none := by
  change (memory.dimensions.filter _)[name.key]? = _
  rw [Std.TreeMap.getElem?_filter']
  split
  · rename_i hmem
    rw [List.contains_iff_mem.mpr hmem]
    cases memory.dimensions[name.key]? <;> rfl
  · rename_i hmem
    rw [Bool.eq_false_iff.mpr (mt List.contains_iff_mem.mp hmem)]
    cases memory.dimensions[name.key]? <;> rfl

/-- All that memory has of a name is the same: the variable, and the elements and dimensions of the array. -/
structure Keeps (memory after : Memory) (name : Name) : Prop where
  held : ∀ indices, after.held name indices = memory.held name indices
  dimensions : after.dimensions[name.key]? = memory.dimensions[name.key]?

theorem Keeps.at? {after : Memory} {place : Place} (h : Keeps memory after place.name) :
    after.at? place = memory.at? place := by
  have hreaches : ∀ indices, after.reaches place indices = memory.reaches place indices := by
    intro indices
    cases place with
    | scalar name => rfl
    | element name values =>
        have hdimensions : after.dimensions[name.key]? = memory.dimensions[name.key]? := h.dimensions
        change (!after.isOutside name indices) = (!memory.isOutside name indices)
        rw [isOutside_congr rfl hdimensions]
  rw [at?_eq, at?_eq]
  cases place.indices with
  | error fault => rfl
  | ok indices =>
      dsimp only
      rw [hreaches, h.held]

/-- Nothing of a name is left: the variable and all elements have the value of one that was never stored to,
and the array has no dimensions. -/
structure Forgets (after : Memory) (name : Name) : Prop where
  scalar : after.fetch name = name.type.default
  held : ∀ indices, after.held name indices = name.type.default
  dimensions : after.dimensions[name.key]? = none

theorem keeps_retain (h : name.IsScanned) (hmem : name.key ∈ names.map Name.key) :
    Keeps memory (memory.retain names) name where
  held indices := by rw [held_retain h, if_pos hmem]
  dimensions := by rw [dimensions_retain, if_pos hmem]

theorem forgets_retain (h : name.IsScanned) (hmem : name.key ∉ names.map Name.key) :
    Forgets (memory.retain names) name where
  scalar := (held_retain h []).trans (if_neg hmem)
  held indices := by rw [held_retain h, if_neg hmem]
  dimensions := by rw [dimensions_retain, if_neg hmem]

end Memory

namespace Program

variable {program : Program} {name : Name}

/-- A COMMON statement on a numbered line, at any depth of IF, lists the name, with the sigil of a single or
without it. -/
def Commons (program : Program) (name : Name) : Prop :=
  ∃ number path names listed, program.statement? ⟨some number, path⟩ = some (.command (.common names)) ∧
    listed ∈ names ∧ listed.Same name

/-- The gathered names are those of every COMMON statement. -/
theorem mem_common {listed : Name} :
    listed ∈ program.common ↔
      ∃ number path names, program.statement? ⟨some number, path⟩ = some (.command (.common names)) ∧
        listed ∈ names := by
  unfold common
  constructor
  · intro hmem
    obtain ⟨⟨number, list⟩, hentry, hmem⟩ := List.mem_flatMap.mp hmem
    obtain ⟨c, hc, hlisted⟩ := List.mem_flatMap.mp hmem
    rw [← Statement.map_snd_placedAll 0] at hc
    obtain ⟨⟨path, c⟩, hplaced, rfl⟩ := List.mem_map.mp hc
    cases c with
    | common names =>
        have hat := (Statement.mem_placedAll_zero.mp hplaced).2
        exact ⟨number, path, names, Option.bind_eq_some_iff.mpr ⟨list, Numbered.mem_entries_iff.mp hentry, hat⟩,
          hlisted⟩
    | _ => cases hlisted
  · rintro ⟨number, path, names, hat, hlisted⟩
    obtain ⟨list, hlist, hat⟩ := Option.bind_eq_some_iff.mp hat
    refine List.mem_flatMap.mpr ⟨(number, list), Numbered.mem_entries_iff.mpr hlist, ?_⟩
    exact List.mem_flatMap.mpr ⟨_, mem_commandsOfAll hat, hlisted⟩

/-- Names are kept by the text of their cells, and that is one for all spellings of a name. -/
theorem commons_iff (h : program.Scanned) (hname : name.IsScanned) :
    program.Commons name ↔ name.key ∈ program.common.map Name.key := by
  rw [List.mem_map]
  constructor
  · rintro ⟨number, path, names, listed, hat, hlisted, hsame⟩
    have hscanned : listed.IsScanned := h.command hat listed hlisted
    exact ⟨listed, mem_common.mpr ⟨number, path, names, hat, hlisted⟩,
      (Name.same_iff_key_eq hscanned hname).mp hsame⟩
  · rintro ⟨listed, hmem, hkey⟩
    obtain ⟨number, path, names, hat, hlisted⟩ := mem_common.mp hmem
    have hscanned : listed.IsScanned := h.command hat listed hlisted
    exact ⟨number, path, names, listed, hat, hlisted, (Name.same_iff_key_eq hscanned hname).mpr hkey⟩

end Program

namespace Session

variable {session chained : Session} {program : Program} {memory : Memory}

/-- A program is about to start with nothing but variables from another one: no loop or subroutine is open,
no function is defined, no fault is handled, and no DATA item was read. -/
structure TakesOver (program : Program) (memory : Memory) (chained : Session) : Prop where
  program : chained.program = program
  memory : chained.work.memory = memory
  stack : chained.stack.toList = []
  functions : chained.functions = ∅
  onError : chained.settings.onError = none
  resume : chained.settings.resume = none
  data : chained.data = none
  dataPosition : chained.dataPosition = 0

/-- It starts at a cursor, and no fault is known. -/
structure StartsAt (cursor : Option Cursor) (chained : Session) : Prop where
  state : chained.state = .running
  cursor : chained.cursor = cursor
  faultCode : chained.settings.faultCode = 0
  faultLine : chained.settings.faultLine = none

theorem takesOver_chainedTo (session : Session) (program : Program) (memory : Memory) (cursor : Option Cursor) :
    TakesOver program memory { session.chainedTo program memory with cursor } :=
  ⟨rfl, rfl, rfl, rfl, rfl, rfl, rfl, rfl⟩

theorem startsAt_chainedTo (session : Session) (program : Program) (memory : Memory) (cursor : Option Cursor) :
    StartsAt cursor { session.chainedTo program memory with cursor } :=
  ⟨rfl, rfl, rfl, rfl⟩

theorem TakesOver.raise (h : TakesOver program memory chained) (fault : Fault) :
    TakesOver program memory (chained.raise fault) := by
  have hfields : (chained.raise fault).work = chained.work ∧ (chained.raise fault).stack = chained.stack ∧
      (chained.raise fault).functions = chained.functions ∧
      (chained.raise fault).settings.onError = chained.settings.onError ∧
      (chained.raise fault).settings.resume = chained.settings.resume ∧
      (chained.raise fault).data = chained.data := by
    unfold Session.raise
    rw [handler?_of_onError h.onError]
    dsimp only
    split <;> exact ⟨rfl, rfl, rfl, rfl, rfl, rfl⟩
  obtain ⟨hwork, hstack, hfunctions, honError, hresume, hdata⟩ := hfields
  exact ⟨(program_raise _ _).trans h.program, by rw [hwork, h.memory], by rw [hstack, h.stack],
    hfunctions.trans h.functions, honError.trans h.onError, hresume.trans h.resume, hdata.trans h.data,
    (dataPosition_raise _ _).trans h.dataPosition⟩

theorem takesOver_chainProgram (session : Session) (program : Program) (line : Option Nat) (all : Bool) :
    TakesOver program
      (if all then session.work.memory else session.work.memory.retain session.program.common)
      (session.chainProgram program line all) := by
  rw [chainProgram_eq]
  dsimp only
  cases line with
  | none => exact takesOver_chainedTo session program _ _
  | some number =>
      dsimp only
      cases program.start number with
      | ok cursor => exact takesOver_chainedTo session program _ _
      | error fault => exact (takesOver_chainedTo session program _ session.cursor).raise fault

/-- CHAIN goes on at the first line, or at a line that is there. -/
theorem startsAt_chainProgram {line : Option Nat} {cursor : Option Cursor} (session : Session) (all : Bool)
    (h : (line = none ∧ cursor = program.firstCursor?) ∨
      ∃ number, line = some number ∧ program.lines.contains number = true ∧
        cursor = some (.start (some number))) :
    StartsAt cursor (session.chainProgram program line all) := by
  rw [chainProgram_eq]
  dsimp only
  obtain ⟨rfl, rfl⟩ | ⟨number, rfl, hthere, rfl⟩ := h
  · exact startsAt_chainedTo session program _ _
  · dsimp only
    rw [Program.start, if_pos hthere]
    exact startsAt_chainedTo session program _ _

theorem stops_raise (h : session.settings.onError = none) (fault : Fault) :
    (session.raise fault).state = .stopped ∧ (session.raise fault).cursor = none ∧
      (session.raise fault).settings.faultCode = (session.located fault).code := by
  unfold Session.raise
  rw [handler?_of_onError h]
  dsimp only
  split <;> exact ⟨rfl, rfl, rfl⟩

/-- A line that is missing ends the run. -/
theorem stops_chainProgram {number : Nat} (session : Session) (all : Bool)
    (h : program.lines.contains number = false) :
    (session.chainProgram program (some number) all).state = .stopped ∧
      (session.chainProgram program (some number) all).cursor = none ∧
      (session.chainProgram program (some number) all).settings.faultCode = 8 := by
  have hstart : program.start number = .error (.of .undefinedLineNumber) := if_neg (by simp [h])
  rw [chainProgram_eq]
  dsimp only
  rw [hstart]
  exact stops_raise rfl _

/-- **CHAIN keeps the COMMON variables and nothing else.** In every session that a host can bring about, a
file that comes in to be chained takes the place of the program. Without ALL, what a COMMON statement of the
old program lists keeps its value, its elements and its dimensions, and nothing is left of any other variable
or array; with ALL memory stays as it is. The stack, the functions, the error handler and the DATA position
are reset, and the run goes on at the first line of the file or at the line that CHAIN names. -/
theorem chain_keeps_common {session : Session} {path : String} {line : Option Nat} {all : Bool}
    (hreachable : session.Reachable) (hloading : session.loading = some ⟨path, .chain line all⟩)
    (bytes : List UInt8) :
    let chained := session.completeLoad (.ok bytes)
    let program := (Program.ofBytes bytes).1
    (all = false → ∀ name : Name, name.IsScanned →
      (session.program.Commons name →
        session.work.memory.Keeps chained.work.memory name ∧
        ∀ place : Memory.Place, place.name = name →
          chained.work.memory.at? place = session.work.memory.at? place) ∧
      (¬session.program.Commons name → chained.work.memory.Forgets name)) ∧
    (all = true → chained.work.memory = session.work.memory) ∧
    TakesOver program chained.work.memory chained ∧
    (line = none → StartsAt program.firstCursor? chained) ∧
    ∀ number, line = some number →
      (program.lines.contains number = true → StartsAt (some (.start (some number))) chained) ∧
      (program.lines.contains number = false →
        chained.state = .stopped ∧ chained.cursor = none ∧ chained.settings.faultCode = 8) := by
  intro chained program
  obtain ⟨events, heq⟩ := exists_completeLoad hloading bytes
  have hchained : chained =
      Session.chainProgram { session with loading := none, events } program line all := heq
  have hover := takesOver_chainProgram { session with loading := none, events } program line all
  rw [← hchained] at hover
  have hscanned := (hreachable.furnishedWith supplies_scanned).program
  refine ⟨fun hall name hname => ?_, fun hall => ?_, ?_, fun hline => ?_, fun number hline => ?_⟩
  · have hmemory : chained.work.memory = session.work.memory.retain session.program.common := by
      rw [hover.memory, hall]
      rfl
    rw [hmemory, Program.commons_iff hscanned hname]
    refine ⟨fun hmem => ?_, Memory.forgets_retain hname⟩
    have hkeeps : session.work.memory.Keeps (session.work.memory.retain session.program.common) name :=
      Memory.keeps_retain hname hmem
    refine ⟨hkeeps, ?_⟩
    rintro place rfl
    exact hkeeps.at?
  · rw [hover.memory, hall]
    rfl
  · exact { hover with memory := rfl }
  · rw [hchained]
    exact startsAt_chainProgram _ all (.inl ⟨hline, rfl⟩)
  · rw [hchained, hline]
    constructor
    · exact fun hthere => startsAt_chainProgram _ all (.inr ⟨number, rfl, hthere, rfl⟩)
    · exact stops_chainProgram _ all

/-- A program that has asked for the next one. Of what it has stored, COMMON lists an array, with a sigil that
is left out elsewhere, and a text, inside an IF inside an IF. -/
def chaining : Session :=
  afterCalls [.enter "10 COMMON A! : IF 0 THEN IF 1 THEN COMMON C$",
    .enter "20 DIM A(2) : A(1)=5 : C$=\"X\" : B=2 : CHAIN \"N\"", .enter "RUN", .execute 9]

theorem chain_keeps_common_chaining :
    chaining.loading = some ⟨"N", .chain none false⟩ ∧
      (chaining.completeLoad (.ok remarkFile)).work.memory.at? (.element ⟨"A"⟩ [.int 1]) = .ok (.single 5) ∧
      (chaining.completeLoad (.ok remarkFile)).work.memory.at? (.scalar ⟨"C$"⟩) = .ok (.text "X") ∧
      chaining.work.memory.fetch ⟨"B"⟩ = .single 2 ∧
      (chaining.completeLoad (.ok remarkFile)).work.memory.fetch ⟨"B"⟩ = .single 0 ∧
      StartsAt (some (.start (some 20))) (chaining.completeLoad (.ok remarkFile)) := by
  have hfacts : chaining.loading = some ⟨"N", .chain none false⟩ ∧
      chaining.program.statement? ⟨some 10, [0]⟩ = some (.command (.common [⟨"A!"⟩])) ∧
      chaining.program.statement? ⟨some 10, [1, 0, 0, 0, 0]⟩ = some (.command (.common [⟨"C$"⟩])) ∧
      Name.key ⟨"B"⟩ ∉ chaining.program.common.map Name.key ∧
      chaining.work.memory.at? (.element ⟨"A"⟩ [.int 1]) = .ok (.single 5) ∧
      chaining.work.memory.at? (.scalar ⟨"C$"⟩) = .ok (.text "X") ∧
      chaining.work.memory.fetch ⟨"B"⟩ = .single 2 ∧
      (Program.ofBytes remarkFile).1.firstCursor? = some (.start (some 20)) := by
    rw [chaining, afterCalls_eq, Program.ofBytes, Image.tokens_of_text (by decide)]
    decide +kernel
  obtain ⟨hloading, hfirst, hsecond, hunlisted, harray, htext, hnumber, hcursor⟩ := hfacts
  have hA : Name.IsScanned ⟨"A"⟩ := Name.isScanned_of_spelling (by decide +kernel)
  have hB : Name.IsScanned ⟨"B"⟩ := Name.isScanned_of_spelling (by decide +kernel)
  have hC : Name.IsScanned ⟨"C$"⟩ := Name.isScanned_of_spelling (by decide +kernel)
  have hreachable : chaining.Reachable := reachable_afterCalls _
  obtain ⟨hmemory, -, -, hstarts, -⟩ := chain_keeps_common hreachable hloading remarkFile
  have hkeepsA := ((hmemory rfl _ hA).1
    ⟨10, [0], _, ⟨"A!"⟩, hfirst, List.mem_singleton_self _, .inr (.inl rfl)⟩).2
  have hkeepsC := ((hmemory rfl _ hC).1
    ⟨10, [1, 0, 0, 0, 0], _, ⟨"C$"⟩, hsecond, List.mem_singleton_self _, .inl rfl⟩).2
  have hforgets := (hmemory rfl _ hB).2 fun hlisted =>
    hunlisted ((Program.commons_iff (hreachable.furnishedWith supplies_scanned).program hB).mp hlisted)
  refine ⟨hloading, (hkeepsA _ rfl).trans harray, (hkeepsC _ rfl).trans htext, hnumber, hforgets.scalar, ?_⟩
  rw [← hcursor]
  exact hstarts rfl

end Session

end LineBasic
