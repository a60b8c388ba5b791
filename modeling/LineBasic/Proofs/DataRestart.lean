import LineBasic.Proofs.DataReads
import LineBasic.Proofs.Guarded

/-! DATA after the program was edited. The stored lines change in five ways: a numbered line is typed,
NEW erases them all, and a file is loaded, merged or chained. Four of these set the DATA position to the
start, so that READ goes on with the first item of the program as it is then. A merged file leaves the
position where it was, in items that are no longer the same. -/

namespace LineBasic

namespace Session

open Act SessionAct

variable {session after : Session}

/-- A way in which the stored lines are changed. -/
inductive Edit where
  | typed
  | erased
  | loaded
  | merged
  | chained
  deriving DecidableEq

/-- An edit of the stored lines. -/
inductive Edited : Edit → Session → Session → Prop
  /-- A numbered line is typed: it is stored, or the line of its number is deleted. -/
  | typed {session : Session} {text : String} {line : Line} (hline : line ∈ session.taken text)
      (hnumbered : line.isDirect = false) : Edited .typed session (session.enter text).2
  | erased {session : Session} (hnext : session.nextStatement? = some (.command .new)) :
      Edited .erased session session.stepOrRaise
  | loaded {session : Session} {path : String} {andRun : Bool}
      (hloading : session.loading = some ⟨path, .load andRun⟩) (bytes : List UInt8) :
      Edited .loaded session (session.completeLoad (.ok bytes))
  | merged {session : Session} {path : String} (hloading : session.loading = some ⟨path, .merge⟩)
      {bytes : List UInt8} (hform : Image.Form.ofBytes bytes ≠ .guarded) :
      Edited .merged session (session.completeLoad (.ok bytes))
  | chained {session : Session} {path : String} {line : Option Nat} {all : Bool}
      (hloading : session.loading = some ⟨path, .chain line all⟩) (bytes : List UInt8) :
      Edited .chained session (session.completeLoad (.ok bytes))

theorem dataPosition_raise (session : Session) (fault : Fault) :
    (session.raise fault).dataPosition = session.dataPosition :=
  (keepsData_raise session fault).position

section Typed

theorem dataPosition_takeLine_numbered {line : Line} (hline : line.isDirect = false)
    (session : Session) : (session.takeLine line).dataPosition = 0 := by
  rw [takeLine, if_neg (by simp [hline])]

/-- DATA is at the start after, if it was before. -/
def KeepsStart (session after : Session) : Prop := session.dataPosition = 0 → after.dataPosition = 0

instance : IsPreorder Session KeepsStart where
  refl _ := id
  trans _ _ _ h h' := h' ∘ h

theorem keepsStart_takeLine (line : Line) (session : Session) :
    KeepsStart session (session.takeLine line) := by
  intro hstart
  cases hline : line.isDirect with
  | false => exact dataPosition_takeLine_numbered hline session
  | true => exact (keepsData_takeLine hline session).position.trans hstart

/-- Once a numbered line is taken in, those behind it leave DATA at the start. -/
theorem dataPosition_enter {text : String} {line : Line} (hline : line ∈ session.taken text)
    (hnumbered : line.isDirect = false) : (session.enter text).2.dataPosition = 0 := by
  obtain ⟨ready, -, henter⟩ := exists_enter session text
  obtain ⟨front, rest, hlines⟩ := List.append_of_mem hline
  rw [henter, hlines, List.foldl_append, List.foldl_cons]
  apply relates_takeLines (R := KeepsStart) (fun other _ => keepsStart_takeLine other)
  exact dataPosition_takeLine_numbered hnumbered _

end Typed

section Files

variable {path : String} {bytes : List UInt8}

theorem dataPosition_loadProgram (session : Session) (program : Program) (andRun : Bool) :
    (session.loadProgram program andRun).dataPosition = 0 := by
  cases andRun <;> rfl

theorem dataPosition_mergeProgram (session : Session) (program : Program) :
    (session.mergeProgram program).dataPosition = session.dataPosition := by
  unfold mergeProgram
  split
  · exact dataPosition_raise session _
  · rfl

/-- Also where the line to go on at is missing. -/
theorem dataPosition_chainProgram (session : Session) (program : Program) (line : Option Nat)
    (all : Bool) : (session.chainProgram program line all).dataPosition = 0 := by
  unfold chainProgram
  dsimp only
  split
  · rfl
  · split
    · rfl
    · exact dataPosition_raise _ _

/-- What is done with the program of a file, once the faults in it are told. -/
theorem exists_completeLoad {request : LoadRequest} (hloading : session.loading = some request)
    (bytes : List UInt8) :
    ∃ events, session.completeLoad (.ok bytes) =
      let told : Session := { session with loading := none, events }
      match request.kind with
      | .load andRun => told.loadProgram (Program.ofBytes bytes).1 andRun
      | .merge => told.mergeProgram (Program.ofBytes bytes).1
      | .chain line all => told.chainProgram (Program.ofBytes bytes).1 line all := by
  have htold : ∀ (waited : Session) (faults : List Fault), ∃ events,
      (if faults.isEmpty then waited else waited.report (.faults faults)) = { waited with events } := by
    intro waited faults
    split
    · exact ⟨waited.events, rfl⟩
    · exact ⟨waited.events ++ [.faults faults], rfl⟩
  obtain ⟨events, hevents⟩ := htold { session with loading := none } (Program.ofBytes bytes).2
  refine ⟨events, ?_⟩
  unfold completeLoad
  rw [hloading]
  dsimp only
  cases request.kind with
  | load andRun => exact congrArg (fun told : Session => told.loadProgram (Program.ofBytes bytes).1 andRun) hevents
  | merge => exact congrArg (fun told : Session => told.mergeProgram (Program.ofBytes bytes).1) hevents
  | chain line all =>
      exact congrArg (fun told : Session => told.chainProgram (Program.ofBytes bytes).1 line all) hevents

end Files

theorem dataPosition_stepOrRaise_new (hnext : session.nextStatement? = some (.command .new)) :
    session.stepOrRaise.dataPosition = 0 := by
  rw [stepOrRaise_eq, (keepsData_settle _).position, outcome_step hnext]
  rfl

/-- **Where an edit leaves the DATA position.** -/
theorem Edited.dataPosition {edit : Edit} (h : Edited edit session after) :
    after.dataPosition = if edit = .merged then session.dataPosition else 0 := by
  cases h with
  | typed hline hnumbered => exact dataPosition_enter hline hnumbered
  | erased hnext => exact dataPosition_stepOrRaise_new hnext
  | loaded hloading bytes =>
      obtain ⟨events, heq⟩ := exists_completeLoad hloading bytes
      rw [heq]
      exact dataPosition_loadProgram _ _ _
  | merged hloading _ =>
      obtain ⟨events, heq⟩ := exists_completeLoad hloading _
      rw [heq, if_pos rfl]
      exact dataPosition_mergeProgram { session with loading := none, events } _
  | chained hloading bytes =>
      obtain ⟨events, heq⟩ := exists_completeLoad hloading bytes
      rw [heq]
      exact dataPosition_chainProgram _ _ _ _

theorem Edited.fresh {edit : Edit} (h : Edited edit session after) (hfresh : Fresh session) :
    Fresh after := by
  cases h with
  | typed => exact hfresh.enter _
  | erased => exact hfresh.stepOrRaise
  | loaded | merged | chained => exact hfresh.completeLoad _

/-- Nothing but an edit changes the stored lines. -/
theorem Move.edited (h : Move session after) (hfresh : Fresh session)
    (hlines : after.program.lines ≠ session.program.lines) : ∃ edit, Edited edit session after := by
  obtain hinner | ⟨text, rfl⟩ | ⟨answer, rfl⟩ := h.comes
  · obtain ⟨hsame, -⟩ | ⟨hnew, rfl, -⟩ := hinner.program hfresh
    · exact absurd hsame hlines
    · exact ⟨.erased, .erased hnew⟩
  · by_cases hdirect : ∀ line ∈ session.taken text, line.isDirect = true
    · exact absurd (keepsData_enter hdirect).lines hlines
    · push Not at hdirect
      obtain ⟨line, hline, hnumbered⟩ := hdirect
      exact ⟨.typed, .typed hline (Bool.eq_false_iff.mpr hnumbered)⟩
  · obtain hbrings | ⟨⟨path, kind⟩, bytes, hloading, rfl, hkind⟩ := answer_cases session answer
    · exact absurd (congrArg Program.lines (program_of_refused hbrings)) hlines
    · cases kind with
      | load andRun => exact ⟨.loaded, .loaded hloading bytes⟩
      | chain line all => exact ⟨.chained, .chained hloading bytes⟩
      | merge =>
          obtain ⟨-, hform⟩ | hother := hkind
          · exact ⟨.merged, .merged hloading hform⟩
          · exact absurd rfl hother

/-- **Every edit but a merged file restarts DATA.** In a session that a host can bring about, the
stored lines change only by an edit. After it the DATA position is the start, or, where a file was
merged, what it was before. The attempts to read an item that follow are given the items of the
program as it is now, one after another from that position on. -/
theorem edits_restart_data (session : Session) (hreachable : session.Reachable) :
    (∀ after, Move session after → after.program.lines ≠ session.program.lines →
      ∃ edit, Edited edit session after) ∧
    ∀ (after : Session) (edit : Edit), Edited edit session after →
      (edit ≠ .merged → after.dataPosition = 0) ∧
      (edit = .merged → after.dataPosition = session.dataPosition) ∧
      ∀ log last, UndisturbedRun after log last →
        log.map Attempt.result =
          handOut (after.program.data.drop after.dataPosition) (log.map Attempt.target) := by
  refine ⟨fun after hmove => hmove.edited hreachable.fresh, ?_⟩
  intro after edit hedited
  have hposition := hedited.dataPosition
  refine ⟨fun hedit => ?_, fun hedit => ?_, fun log last hrun => ?_⟩
  · rw [hposition, if_neg hedit]
  · rw [hposition, if_pos hedit]
  · exact (hrun.serves (hedited.fresh hreachable.fresh)).1.results

/-- A program of which two items have been read. -/
def halfRead : Session := afterCalls [.enter "10 DATA A,B,C", .enter "READ A$,B$", .execute 2]

/-- A line with another item is typed in front of it. -/
def typedInFront : Session := (halfRead.enter "5 DATA D").2

theorem edits_restart_data_typedInFront :
    halfRead.dataPosition = 2 ∧ typedInFront.dataPosition = 0 ∧
    ∃ log last, UndisturbedRun typedInFront log last ∧
      log.map Attempt.result = [.ok (.text "D")] := by
  have hfacts : halfRead.dataPosition = 2 ∧
      (∃ line ∈ halfRead.taken "5 DATA D", line.isDirect = false) ∧
      (∀ line ∈ typedInFront.taken "READ C$", line.isDirect = true) ∧
      ((typedInFront.enter "READ C$").2.events = [] ∧
        (typedInFront.enter "READ C$").2.loading = none ∧
        (typedInFront.enter "READ C$").2.isRunning = true ∧
        (typedInFront.enter "READ C$").2.keys.breakSeen = false ∧
        (typedInFront.enter "READ C$").2.resetsData = false) ∧
      (typedInFront.enter "READ C$").2.attempts.map Attempt.target = [.scalar (.ofWord "C$")] ∧
      handOut (typedInFront.program.data.drop 0) [.scalar (.ofWord "C$")] = [.ok (.text "D")] := by
    simp only [typedInFront, halfRead, taken_eq, enter_eq, afterCalls_eq]
    decide +kernel
  obtain ⟨hhalf, ⟨line, hline, hnumbered⟩, hdirect, ⟨he, hl, hr, hb, hs⟩, htargets, hresults⟩ := hfacts
  obtain ⟨-, hedits⟩ := edits_restart_data halfRead (reachable_afterCalls _)
  obtain ⟨hstart, -, hreads⟩ := hedits typedInFront .typed (.typed hline hnumbered)
  have hposition : typedInFront.dataPosition = 0 := hstart (by decide)
  have hrun := (UndisturbedRun.refl.tail (.enter hdirect)).tail (.step he hl hr hb hs)
  refine ⟨hhalf, hposition, _, _, hrun, ?_⟩
  rw [hreads _ _ hrun, hposition, List.nil_append, List.nil_append, htargets]
  exact hresults

/-- The bytes of the text `20 REM`. -/
def remarkFile : List UInt8 := [0x32, 0x30, 0x20, 0x52, 0x45, 0x4D]

/-- The program of which two items have been read has asked for a file to merge. -/
def awaitingMerge : Session :=
  afterCalls [.enter "10 DATA A,B,C", .enter "READ A$,B$", .execute 2, .enter "MERGE \"M\"", .execute 1]

/-- Merging a remark changes the stored lines, and READ goes on with the third item. -/
theorem merge_goes_on_reading :
    awaitingMerge.Reachable ∧
    Edited .merged awaitingMerge (awaitingMerge.completeLoad (.ok remarkFile)) ∧
    awaitingMerge.program.lines.contains 20 = false ∧
    (awaitingMerge.completeLoad (.ok remarkFile)).program.lines.contains 20 = true ∧
    (awaitingMerge.completeLoad (.ok remarkFile)).dataPosition = 2 ∧
    ((readItem (.scalar (.ofWord "C$"))).outcome (awaitingMerge.completeLoad (.ok remarkFile))).1 =
      .ok (.text "C") := by
  have hfacts : awaitingMerge.loading = some ⟨"M", .merge⟩ ∧
      Image.Form.ofBytes remarkFile ≠ .guarded ∧
      awaitingMerge.program.lines.contains 20 = false ∧
      (awaitingMerge.completeLoad (.ok remarkFile)).program.lines.contains 20 = true ∧
      (awaitingMerge.completeLoad (.ok remarkFile)).dataPosition = 2 ∧
      ((readItem (.scalar (.ofWord "C$"))).outcome (awaitingMerge.completeLoad (.ok remarkFile))).1 =
        .ok (.text "C") := by
    rw [awaitingMerge, afterCalls_eq]
    decide +kernel
  obtain ⟨hloading, hform, hrest⟩ := hfacts
  exact ⟨reachable_afterCalls _, .merged hloading hform, hrest⟩

end Session

end LineBasic
