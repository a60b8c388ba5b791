import LineBasic.Proofs.Budget
import LineBasic.Proofs.Guarded
import LineBasic.Proofs.Waiting

/-! Direct lines and their turn. A direct line is started when it is entered, or it waits until a call
that carries the session on starts it. An observer who looks at a session before and after everything that
happens to it notes each line that is accepted and each line that is started: it did not run, and now it
runs. Every line is started once, in the order of their coming, and none while another one runs. -/

namespace LineBasic

/-- The line as far as it is one to be carried out: a direct line that is not empty. -/
def Line.toRun (line : Line) : List Line := if line.isDirect && !line.isEmpty then [line] else []

/-- A numbered line has nothing to do with the direct one. -/
theorem Program.direct_insert {line : Line} (h : line.isDirect = false) (program : Program) :
    (program.insert line).direct = program.direct := by
  unfold Program.insert
  split
  · rename_i hnone
    rw [Line.isDirect, hnone] at h
    cases h
  · split <;> rfl

theorem Program.direct_ofBytes (bytes : List UInt8) : (Program.ofBytes bytes).1.direct = [] := by
  have hlines : ∀ (lines : List Line) (program : Program), (∀ line ∈ lines, line.isDirect = false) →
      (lines.foldl Program.insert program).direct = program.direct := by
    intro lines
    induction lines with
    | nil => exact fun _ _ => rfl
    | cons line rest ih =>
        intro program hnumbered
        obtain ⟨hline, hrest⟩ := List.forall_mem_cons.mp hnumbered
        exact (ih _ hrest).trans (direct_insert hline program)
  refine hlines _ _ fun line hline => ?_
  simpa using (List.mem_filter.mp hline).2

namespace Session

open Act SessionAct

variable {session after : Session}

section Entering

/-- The session before the lines of a text are taken in: the text has got a number from AUTO, or it was
refused. -/
def readied (session : Session) (entered : String) : Session :=
  match session.numberedText entered with
  | (none, ready) => ready
  | (some text, ready) =>
      let parsed := Parsed.ofTokens (Token.lex text)
      if parsed.faults.isEmpty then ready else ready.report (.faults parsed.faults)

theorem enter_eq_takeLines (session : Session) (entered : String) :
    (session.enter entered).2 = (session.taken entered).foldl takeLine (session.readied entered) := by
  unfold enter taken readied
  rcases session.numberedText entered with ⟨none | text, ready⟩
  · rfl
  · dsimp only
    split <;> rfl

/-- Nothing but the number that AUTO gives next and the events has to do with it. -/
theorem exists_readied (session : Session) (entered : String) :
    ∃ auto events,
      session.readied entered = { session with settings := { session.settings with auto }, events } ∧
      (.stopped ∉ session.events → .stopped ∉ events) := by
  refine ⟨session.autoAfter entered, ?_⟩
  rw [readied, numberedText_eq]
  cases session.enteredText? entered with
  | none => exact ⟨session.events, rfl, id⟩
  | some text =>
      dsimp only
      split
      · exact ⟨session.events, rfl, id⟩
      · exact ⟨_, rfl, not_mem_report (by rintro ⟨⟩)⟩

end Entering

/-- The direct line that a session has started between two moments: it did not run, and now it runs. -/
def startedBetween (before after : Session) : List Line :=
  if before.isRunning = false ∧ after.isRunning = true then [⟨none, after.program.direct⟩] else []

theorem startedBetween_of_isRunning (h : session.isRunning = true) (after : Session) :
    startedBetween session after = [] := by
  apply if_neg
  rw [h]
  rintro ⟨⟨⟩, -⟩

theorem startedBetween_of_eq (h : after.isRunning = session.isRunning) : startedBetween session after = [] := by
  apply if_neg
  rw [h]
  rintro ⟨hnot, hruns⟩
  rw [hnot] at hruns
  cases hruns

theorem startedBetween_startDirect {line : Line} {rest : List Line} (hrunning : session.isRunning = false)
    (hline : line.number = none) :
    startedBetween session ({ session with waiting := rest }.startDirect line) = [line] := by
  unfold startedBetween
  rw [if_pos ⟨hrunning, rfl⟩]
  change [Line.mk none (session.program.insert line).direct] = [line]
  rw [Program.insert, hline]
  cases line
  cases hline
  rfl

/-- One thing that happens to a session within a call of its host, with the lines that are accepted by
it: a text gets its number or is refused, a line of it is taken in, the session takes its turn, it hands
out an event or has none, or a file comes in. -/
inductive Happens : Session → List Line → Session → Prop
  | ready (session : Session) (entered : String) : Happens session [] (session.readied entered)
  | take (session : Session) (line : Line) : Happens session line.toRun (session.takeLine line)
  | turn {session next : Session} (h : session.turn? = some next) : Happens session [] next
  | report {session : Session} {event : Event} {rest : List Event} (h : session.events = event :: rest) :
      Happens session [] { session with events := rest }
  | rest (session : Session) : Happens session [] session
  | answer (session : Session) (answer : Except Fault (List UInt8)) :
      Happens session [] (session.completeLoad answer)

end Session

/-- A session with an observer's notes: the direct lines accepted so far and those started so far. -/
structure Observed where
  session : Session
  accepted : List Line := []
  started : List Line := []

namespace Observed

open Session

variable {seen : Observed} {session after : Session} {lines : List Line}

/-- What the observer notes when something has happened. -/
def next (seen : Observed) (lines : List Line) (after : Session) : Observed where
  session := after
  accepted := seen.accepted ++ lines
  started := seen.started ++ startedBetween seen.session after

def takeLine (seen : Observed) (line : Line) : Observed := seen.next line.toRun (seen.session.takeLine line)

def enter (seen : Observed) (entered : String) : Observed :=
  (seen.session.taken entered).foldl takeLine (seen.next [] (seen.session.readied entered))

def execute : Nat → Observed → Observed
  | 0, seen => seen.next [] (Session.execute 0 seen.session).2
  | cycles + 1, seen =>
      match seen.session.turn? with
      | some turned => execute cycles (seen.next [] turned)
      | none => seen.next [] seen.session.immediate.2

/-- The calls that are observed: lines are entered, the session is carried on, and files come in. -/
inductive Quiet where
  | enter (text : String)
  | execute (cycles : Nat)
  | completeLoad (answer : Except Fault (List UInt8))

def Quiet.toCall : Quiet → Call
  | enter text => .enter text
  | execute cycles => .execute cycles
  | completeLoad answer => .completeLoad answer

def call (seen : Observed) : Quiet → Observed
  | .enter text => seen.enter text
  | .execute cycles => execute cycles seen
  | .completeLoad answer => seen.next [] (seen.session.completeLoad answer)

/-- What is observed of calls, from the start. -/
def afterCalls (random : Random) (calls : List Quiet) : Observed :=
  calls.foldl call { session := .new random }

/-- The lines to be run in the texts that calls enter, as far as these are not refused. -/
def enteredBy : Session → List Quiet → List Line
  | _, [] => []
  | session, .enter text :: rest =>
      (session.taken text).flatMap Line.toRun ++ enteredBy (session.call (.enter text)) rest
  | session, c :: rest => enteredBy (session.call c.toCall) rest

section Session

theorem session_takeLines (lines : List Line) (seen : Observed) :
    (lines.foldl takeLine seen).session = lines.foldl Session.takeLine seen.session ∧
      (lines.foldl takeLine seen).accepted = seen.accepted ++ lines.flatMap Line.toRun := by
  induction lines generalizing seen with
  | nil => exact ⟨rfl, (List.append_nil _).symm⟩
  | cons line rest ih =>
      obtain ⟨hsession, haccepted⟩ := ih (seen.takeLine line)
      refine ⟨hsession, haccepted.trans ?_⟩
      rw [List.flatMap_cons]
      exact List.append_assoc _ _ _

theorem session_execute (cycles : Nat) (seen : Observed) :
    (execute cycles seen).session = (Session.execute cycles seen.session).2 ∧
      (execute cycles seen).accepted = seen.accepted := by
  induction cycles generalizing seen with
  | zero => exact ⟨rfl, List.append_nil _⟩
  | succ cycles ih =>
      rw [execute, execute_succ]
      cases hturn : seen.session.turn? with
      | none => exact ⟨rfl, List.append_nil _⟩
      | some turned =>
          obtain ⟨hsession, haccepted⟩ := ih (seen.next [] turned)
          exact ⟨hsession, haccepted.trans (List.append_nil _)⟩

/-- Observing changes nothing. -/
theorem session_call (seen : Observed) (c : Quiet) : (seen.call c).session = seen.session.call c.toCall := by
  cases c with
  | enter text => exact (session_takeLines _ _).1.trans (enter_eq_takeLines seen.session text).symm
  | execute cycles => exact (session_execute cycles seen).1
  | completeLoad answer => rfl

theorem session_afterCalls (random : Random) (calls : List Quiet) :
    (afterCalls random calls).session = (calls.map Quiet.toCall).foldl Session.call (.new random) := by
  have hcalls : ∀ seen : Observed, (calls.foldl call seen).session =
      (calls.map Quiet.toCall).foldl Session.call seen.session := by
    induction calls with
    | nil => exact fun _ => rfl
    | cons c rest ih =>
        intro seen
        rw [List.foldl_cons, List.map_cons, List.foldl_cons, ih, session_call]
  exact hcalls _

theorem accepted_afterCalls (random : Random) (calls : List Quiet) :
    (afterCalls random calls).accepted = enteredBy (.new random) calls := by
  have hcalls : ∀ seen : Observed, (calls.foldl call seen).accepted =
      seen.accepted ++ enteredBy seen.session calls := by
    induction calls with
    | nil => exact fun _ => (List.append_nil _).symm
    | cons c rest ih =>
        intro seen
        rw [List.foldl_cons, ih, session_call]
        cases c with
        | enter text =>
            obtain ⟨-, haccepted⟩ := session_takeLines (seen.session.taken text)
              (seen.next [] (seen.session.readied text))
            rw [call, enter, haccepted, enteredBy, next, List.append_nil, List.append_assoc]
            rfl
        | execute cycles =>
            rw [call, (session_execute cycles seen).2]
            rfl
        | completeLoad answer =>
            rw [call, next, List.append_nil]
            rfl
  exact hcalls _

end Session

/-- The moments at which a session is observed: from the start on, after everything that happens. -/
inductive Moment : Observed → Prop
  | new (random : Random) : Moment { session := .new random }
  | next {seen : Observed} {lines : List Line} {after : Session} (h : Moment seen)
      (hhappens : Happens seen.session lines after) : Moment (seen.next lines after)

section Moments

theorem Moment.takeLines (h : Moment seen) (lines : List Line) : Moment (lines.foldl takeLine seen) := by
  induction lines generalizing seen with
  | nil => exact h
  | cons line rest ih => exact ih (h.next (.take seen.session line))

theorem happens_immediate (session : Session) : Happens session [] session.immediate.2 := by
  unfold immediate
  split
  · exact .report ‹_›
  · exact .rest session
  · exact .rest session

theorem happens_execute_zero (session : Session) : Happens session [] (Session.execute 0 session).2 := by
  unfold Session.execute
  split
  · exact .report ‹_›
  · split <;> exact .rest session

theorem Moment.execute (h : Moment seen) (cycles : Nat) : Moment (Observed.execute cycles seen) := by
  induction cycles generalizing seen with
  | zero => exact h.next (happens_execute_zero seen.session)
  | succ cycles ih =>
      rw [Observed.execute]
      cases hturn : seen.session.turn? with
      | none => exact h.next (happens_immediate seen.session)
      | some turned => exact ih (h.next (.turn hturn))

theorem Moment.call (h : Moment seen) (c : Quiet) : Moment (seen.call c) := by
  cases c with
  | enter text => exact Moment.takeLines (h.next (.ready seen.session text)) _
  | execute cycles => exact h.execute cycles
  | completeLoad answer => exact h.next (.answer seen.session answer)

theorem moment_afterCalls (random : Random) (calls : List Quiet) : Moment (afterCalls random calls) := by
  have hcalls : ∀ seen : Observed, Moment seen → Moment (calls.foldl Observed.call seen) := by
    induction calls with
    | nil => exact fun _ h => h
    | cons c rest ih => exact fun seen h => ih _ (h.call c)
  exact hcalls _ (.new random)

end Moments

/-- What holds at every moment: the lines that were started and those that wait are the lines that were
accepted; and the session is one that a host can bring about without a break. -/
structure InOrder (seen : Observed) : Prop where
  lines : seen.started ++ seen.session.waiting = seen.accepted
  direct : ∀ line ∈ seen.session.waiting, line.number = none
  consistent : seen.session.Consistent
  breakSeen : seen.session.keys.breakSeen = false
  untold : .stopped ∉ seen.session.events

/-- Nothing is started by what happens, and nothing comes to wait. -/
theorem InOrder.keep (h : InOrder seen) (hqueue : KeepsQueue seen.session after)
    (hnone : startedBetween seen.session after = []) (hconsistent : after.Consistent) : InOrder (seen.next [] after) where
  lines := by
    change seen.started ++ startedBetween seen.session after ++ after.waiting = seen.accepted ++ []
    rw [hnone, hqueue.waiting, List.append_nil, List.append_nil, h.lines]
  direct := by
    change ∀ line ∈ after.waiting, line.number = none
    rw [hqueue.waiting]
    exact h.direct
  consistent := hconsistent
  breakSeen := hqueue.breakSeen.trans h.breakSeen
  untold := hqueue.untold h.untold

theorem InOrder.ready (h : InOrder seen) (entered : String) :
    InOrder (seen.next [] (seen.session.readied entered)) := by
  obtain ⟨auto, events, hready, huntold⟩ := exists_readied seen.session entered
  rw [hready]
  refine h.keep ⟨rfl, rfl, huntold⟩ (startedBetween_of_eq rfl) ?_
  have hself := h.consistent
  exact ⟨hself.cursor, hself.trap, hself.loading, hself.depth, hself.size⟩

/-- A line that is taken in is started if nothing runs, is loading or waits; otherwise it comes to wait
after all others. -/
theorem InOrder.take (h : InOrder seen) (line : Line) : InOrder (seen.takeLine line) := by
  have hself := h.consistent
  unfold Observed.takeLine Line.toRun Session.takeLine
  by_cases hdirect : line.isDirect = true
  · rw [hdirect, if_pos rfl]
    cases hempty : line.isEmpty with
    | true => exact h.keep (refl_of KeepsQueue _) (startedBetween_of_eq rfl) h.consistent
    | false =>
        have hnumber : line.number = none := Option.isNone_iff_eq_none.mp hdirect
        rw [if_neg Bool.false_ne_true]
        cases hbusy : seen.session.isBusy with
        | true =>
            have hnone : startedBetween seen.session
                { seen.session with waiting := seen.session.waiting ++ [line] } = [] := startedBetween_of_eq rfl
            refine ⟨?_, ?_, ?_, h.breakSeen, h.untold⟩
            · change seen.started ++ startedBetween seen.session
                { seen.session with waiting := seen.session.waiting ++ [line] } ++
                  (seen.session.waiting ++ [line]) = seen.accepted ++ [line]
              rw [hnone, List.append_nil, ← List.append_assoc, h.lines]
            · change ∀ other ∈ seen.session.waiting ++ [line], other.number = none
              intro other hother
              rcases List.mem_append.mp hother with hbefore | hlast
              · exact h.direct other hbefore
              · rwa [List.mem_singleton.mp hlast]
            · exact ⟨hself.cursor, hself.trap, hself.loading, hself.depth, hself.size⟩
        | false =>
            rw [isBusy, Bool.or_eq_false_iff, Bool.or_eq_false_iff, Bool.not_eq_false',
              List.isEmpty_iff] at hbusy
            obtain ⟨⟨hrunning, -⟩, hwaiting⟩ := hbusy
            have hstarted : startedBetween seen.session (seen.session.startDirect line) = [line] :=
              startedBetween_startDirect hrunning hnumber
            have hlines := h.lines
            rw [hwaiting, List.append_nil] at hlines
            refine ⟨?_, h.direct, hself.startDirect line, h.breakSeen, h.untold⟩
            change seen.started ++ startedBetween seen.session (seen.session.startDirect line) ++
              seen.session.waiting = seen.accepted ++ [line]
            rw [hstarted, hwaiting, List.append_nil, hlines]
  · rw [Bool.eq_false_iff.mpr hdirect, if_neg Bool.false_ne_true]
    refine h.keep ⟨rfl, rfl, id⟩ (startedBetween_of_eq rfl) ?_
    exact ⟨hself.cursor, hself.trap, hself.loading, hself.depth, hself.size⟩

/-- A turn starts the line that has waited longest, or it carries out a statement and starts nothing. -/
theorem InOrder.turn (h : InOrder seen) (hturn : seen.session.turn? = some after) :
    InOrder (seen.next [] after) := by
  have hself := h.consistent
  cases turn_of_turn? hturn with
  | start _ _ hrunning hwaiting =>
      have hlines := h.lines
      have hdirect := h.direct
      rw [hwaiting] at hlines hdirect
      obtain ⟨hline, hrest⟩ := List.forall_mem_cons.mp hdirect
      refine ⟨?_, hrest, ?_, h.breakSeen, h.untold⟩
      · change seen.started ++ startedBetween seen.session _ ++ _ = seen.accepted ++ []
        rw [startedBetween_startDirect hrunning hline, List.append_nil, List.append_assoc]
        exact hlines
      · refine Consistent.startDirect ?_ _
        exact ⟨hself.cursor, hself.trap, hself.loading, hself.depth, hself.size⟩
  | obey _ _ _ hbreak => cases h.breakSeen.symm.trans hbreak
  | step _ hloading hrunning =>
      exact h.keep (keepsQueue_stepOrRaise _) (startedBetween_of_isRunning hrunning _)
        (hself.stepOrRaise hrunning hloading)

theorem InOrder.answer (h : InOrder seen) (answer : Except Fault (List UInt8)) :
    InOrder (seen.next [] (seen.session.completeLoad answer)) := by
  refine h.keep (keepsPlace_completeLoad _ answer).toKeepsQueue ?_ (h.consistent.completeLoad answer)
  cases hloading : seen.session.loading with
  | some request =>
      apply startedBetween_of_isRunning
      exact h.consistent.loading (hloading ▸ rfl)
  | none =>
      apply startedBetween_of_eq
      rw [completeLoad, hloading]

/-- **What one thing that happens keeps.** -/
theorem InOrder.happens (h : InOrder seen) (hhappens : Happens seen.session lines after) :
    InOrder (seen.next lines after) := by
  generalize hsession : seen.session = session at hhappens
  cases hhappens with
  | ready entered =>
      cases hsession
      exact h.ready entered
  | take line =>
      cases hsession
      exact h.take line
  | turn hturn =>
      cases hsession
      exact h.turn hturn
  | report hevents =>
      cases hsession
      have hself := h.consistent
      refine h.keep ⟨rfl, rfl, fun huntold => ?_⟩ (startedBetween_of_eq rfl) ?_
      · rw [hevents, List.mem_cons, not_or] at huntold
        exact huntold.2
      · exact ⟨hself.cursor, hself.trap, hself.loading, hself.depth, hself.size⟩
  | rest =>
      cases hsession
      exact h.keep (refl_of KeepsQueue _) (startedBetween_of_eq rfl) h.consistent
  | answer answer =>
      cases hsession
      exact h.answer answer

/-- **What all that happens keeps.** -/
theorem Moment.inOrder (h : Moment seen) : InOrder seen := by
  induction h with
  | new random =>
      exact ⟨rfl, fun _ hline => absurd hline List.not_mem_nil, consistent_new random, rfl, List.not_mem_nil⟩
  | next _ hhappens ih => exact ih.happens hhappens

/-- A session that begins to run begins with the first statement of its direct line. -/
theorem cursor_of_happens (hhappens : Happens session lines after) (hrunning : session.isRunning = false)
    (hloading : session.loading = none) (hruns : after.isRunning = true) : after.cursor = some (.start none) := by
  have hstill : ¬session.isRunning = true := by
    rw [hrunning]
    exact Bool.false_ne_true
  cases hhappens with
  | ready entered =>
      obtain ⟨auto, events, hready, -⟩ := exists_readied session entered
      rw [hready] at hruns
      exact absurd hruns hstill
  | take line =>
      revert hruns
      unfold Session.takeLine
      split
      · split
        · exact fun hruns => absurd hruns hstill
        · split
          · exact fun hruns => absurd hruns hstill
          · exact fun _ => rfl
      · exact fun hruns => absurd hruns hstill
  | turn hturn =>
      cases turn_of_turn? hturn with
      | start => rfl
      | obey _ _ hother | step _ _ hother => exact absurd hother hstill
  | report | rest => exact absurd hruns hstill
  | answer answer =>
      rw [completeLoad, hloading] at hruns
      exact absurd hruns hstill

/-- While a line runs no other takes its place: what happens leaves it there, or a program that comes or
goes takes it away. -/
theorem direct_of_happens (hhappens : Happens session lines after) (hrunning : session.isRunning = true) :
    after.program.direct = session.program.direct ∨ after.program.direct = [] := by
  cases hhappens with
  | ready entered =>
      obtain ⟨auto, events, hready, -⟩ := exists_readied session entered
      rw [hready]
      exact .inl rfl
  | take line =>
      have hbusy : session.isBusy = true := by
        rw [isBusy, hrunning]
        rfl
      unfold Session.takeLine
      rw [hbusy]
      split
      · split <;> exact .inl rfl
      · exact .inl (Program.direct_insert (Bool.eq_false_iff.mpr ‹_›) session.program)
  | turn hturn =>
      cases turn_of_turn? hturn with
      | start _ _ hidle => cases hrunning.symm.trans hidle
      | obey => exact .inl (congrArg Program.direct (program_interrupt _))
      | step =>
          by_cases hnew : session.nextStatement? = some (.command .new)
          · exact .inr (congrArg Program.direct (program_stepOrRaise_new hnew))
          · exact .inl (congrArg Program.direct (program_stepOrRaise hnew))
  | report | rest => exact .inl rfl
  | answer answer =>
      obtain hbrings | ⟨request, bytes, hloading, rfl, ⟨hmerge, hform⟩ | hother⟩ := answer_cases session answer
      · exact .inl (congrArg Program.direct (program_of_refused hbrings))
      · left
        rw [program_of_merged hloading hmerge hform]
        rfl
      · right
        rw [program_of_replaced hloading hother]
        exact Program.direct_ofBytes bytes

theorem untold_of_turn? (hturn : session.turn? = some after) (huntold : .stopped ∉ session.events) :
    .stopped ∉ after.events := by
  cases turn_of_turn? hturn with
  | start => exact huntold
  | obey =>
      unfold interrupt
      dsimp only
      split
      · exact (keepsPlace_breakOff _).untold huntold
      · exact huntold
  | step => exact (keepsQueue_stepOrRaise session).untold huntold

theorem waiting_of_immediate (huntold : .stopped ∉ session.events) (hturn : session.turn? = none)
    (hstopped : session.immediate.1 = .stopped) : session.immediate.2.waiting = [] := by
  unfold immediate at hstopped ⊢
  cases hevents : session.events with
  | cons event rest =>
      rw [hevents] at hstopped
      exact absurd (hevents ▸ hstopped ▸ List.mem_cons_self) huntold
  | nil =>
      rw [hevents] at hstopped
      cases turn_of_turn? hturn with
      | told hother => cases hevents.symm.trans hother
      | asked hloading =>
          rw [hloading] at hstopped
          cases hstopped
      | idle hrunning hwaiting => split <;> exact hwaiting

/-- A session that tells that it has stopped has no line left that waits. -/
theorem waiting_of_stopped (huntold : .stopped ∉ session.events) {cycles : Nat}
    (hstopped : (Session.execute cycles session).1 = .stopped) :
    (Session.execute cycles session).2.waiting = [] := by
  induction cycles generalizing session with
  | zero =>
      cases hevents : session.events with
      | cons event rest =>
          rw [execute_of_events hevents] at hstopped
          exact absurd (hevents ▸ hstopped ▸ List.mem_cons_self) huntold
      | nil =>
          obtain hruns | ⟨-, hwaiting, hstops⟩ := execute_zero_cases hevents
          · rw [hruns] at hstopped
            cases hstopped
          · rw [hstops]
            exact hwaiting
  | succ cycles ih =>
      rw [execute_succ] at hstopped ⊢
      cases hturn : session.turn? with
      | some turned =>
          rw [hturn] at hstopped
          exact ih (untold_of_turn? hturn huntold) hstopped
      | none =>
          rw [hturn] at hstopped
          exact waiting_of_immediate huntold hturn hstopped

/-- **Direct lines are started once each, in the order in which they came.** Whatever lines are entered,
however the session is carried on in between, and whatever files come in: at every moment the lines that
were started and those that wait are together all lines that were accepted, in their order. Whenever a
line is started, from its first statement, nothing runs and no file is asked for; and while something runs
or is asked for, no line takes the place of the one that runs. Once the session tells that it has stopped,
every line was started. -/
theorem direct_lines_start_in_order :
    (∀ random calls,
      (afterCalls random calls).session = (calls.map Quiet.toCall).foldl Session.call (.new random) ∧
      (afterCalls random calls).accepted = enteredBy (.new random) calls ∧ Moment (afterCalls random calls)) ∧
    (∀ seen, Moment seen → seen.started ++ seen.session.waiting = seen.accepted) ∧
    (∀ seen lines after, Moment seen → Happens seen.session lines after →
      (∀ line, (seen.next lines after).started = seen.started ++ [line] →
        seen.session.isRunning = false ∧ seen.session.loading = none ∧
          after.cursor = some (.start none) ∧ after.program.direct = line.statements) ∧
      (seen.session.isRunning = true ∨ seen.session.loading.isSome →
        (seen.next lines after).started = seen.started ∧
          (after.program.direct = seen.session.program.direct ∨ after.program.direct = []))) ∧
    ∀ random calls cycles, (Session.execute cycles (afterCalls random calls).session).1 = .stopped →
      (execute cycles (afterCalls random calls)).started = enteredBy (.new random) calls := by
  refine ⟨fun random calls => ⟨session_afterCalls random calls, accepted_afterCalls random calls,
      moment_afterCalls random calls⟩,
    fun seen hmoment => hmoment.inOrder.lines, fun seen lines after hmoment hhappens => ⟨fun line hline => ?_,
      fun hbusy => ?_⟩, fun random calls cycles hstopped => ?_⟩
  · have hstarted : startedBetween seen.session after = [line] := List.append_cancel_left hline
    unfold startedBetween at hstarted
    split at hstarted
    · rename_i hturned
      obtain ⟨hrunning, hruns⟩ := hturned
      cases hstarted
      have hloading : seen.session.loading = none := by
        rw [← Option.not_isSome_iff_eq_none]
        intro hsome
        rw [hmoment.inOrder.consistent.loading hsome] at hrunning
        cases hrunning
      exact ⟨hrunning, hloading, cursor_of_happens hhappens hrunning hloading hruns, rfl⟩
    · cases hstarted
  · have hrunning := hbusy.elim id hmoment.inOrder.consistent.loading
    refine ⟨?_, direct_of_happens hhappens hrunning⟩
    rw [next, startedBetween_of_isRunning hrunning, List.append_nil]
  · have hmoment := moment_afterCalls random calls
    have hlines := (hmoment.execute cycles).inOrder.lines
    obtain ⟨hsession, haccepted⟩ := session_execute cycles (afterCalls random calls)
    rw [hsession, waiting_of_stopped hmoment.inOrder.untold hstopped, List.append_nil, haccepted] at hlines
    exact hlines.trans (accepted_afterCalls random calls)

/-- Four lines in three texts, two of them entered at once and one that ends the program, while the second
is about to run. -/
def betweenLines : List Quiet :=
  [.enter "A%=1", .enter "NEW:BEEP\nPRINT A$", .execute 3, .enter "10 GOTO", .enter "CLS"]

theorem direct_lines_start_in_order_betweenLines :
    (afterCalls {} betweenLines).started ++ (afterCalls {} betweenLines).session.waiting =
        enteredBy (.new {}) betweenLines ∧
      (afterCalls {} betweenLines).started.length = 2 ∧ (enteredBy (.new {}) betweenLines).length = 4 := by
  obtain ⟨hcalls, horder, -⟩ := direct_lines_start_in_order
  obtain ⟨-, haccepted, hmoment⟩ := hcalls {} betweenLines
  refine ⟨?_, by decide +kernel, by decide +kernel⟩
  rw [horder _ hmoment, haccepted]

end Observed

end LineBasic
