import LineBasic.Proofs.Reachable

/-! Breaks and CONT. A break and a STOP put the next statement of a run aside and leave what the run
goes by as it is: its open loops and calls, its values, its place in the DATA, its error handler and
the fault on record. CONT takes that statement up again, so that a run goes on as if nothing had
happened. It always goes on outside of an error handler, though: a run that is broken off inside of
one is no longer in it. -/

namespace LineBasic

/-- CONT on a line of its own, without a number. -/
def Line.cont : Line := ⟨none, [.command .cont]⟩

namespace Session

open Act SessionAct

variable {session after : Session}

/-- What a run goes by is the same, but for the place in the program and the run state. -/
structure Kept (session after : Session) : Prop where
  stack : after.stack = session.stack
  work : after.work = session.work
  functions : after.functions = session.functions
  data : after.data = session.data
  dataPosition : after.dataPosition = session.dataPosition
  onError : after.settings.onError = session.settings.onError
  faultCode : after.settings.faultCode = session.settings.faultCode
  faultLine : after.settings.faultLine = session.settings.faultLine
  resume : after.settings.resume = session.settings.resume

theorem Kept.trans {first second third : Session} (h : Kept first second) (h' : Kept second third) :
    Kept first third where
  stack := h'.stack.trans h.stack
  work := h'.work.trans h.work
  functions := h'.functions.trans h.functions
  data := h'.data.trans h.data
  dataPosition := h'.dataPosition.trans h.dataPosition
  onError := h'.onError.trans h.onError
  faultCode := h'.faultCode.trans h.faultCode
  faultLine := h'.faultLine.trans h.faultLine
  resume := h'.resume.trans h.resume

/-- A run that is put aside: its next statement waits for CONT, and nothing runs. -/
structure PutAside (session after : Session) : Prop extends Kept session after where
  restart : after.settings.restart = session.cursor
  halted : after.isRunning = false

theorem kept_breakOff (session : Session) : Kept session session.breakOff := by
  unfold breakOff
  split <;> constructor <;> rfl

theorem putAside_breakOff (hline : session.current.line.isSome) :
    PutAside session session.breakOff := by
  refine { kept_breakOff session with restart := ?_, halted := isRunning_breakOff session }
  obtain ⟨line, hline⟩ := Option.isSome_iff_exists.mp hline
  unfold breakOff
  rw [hline]
  rfl

/-- The session once nothing waits and lines get no numbers. -/
def quiet (session : Session) : Session :=
  { session with
    settings := { session.settings with auto := none }
    loading := none
    waiting := [] }

theorem kept_quiet (session : Session) : Kept session session.quiet := by
  constructor <;> rfl

theorem interrupt_of_isRunning (hrunning : session.isRunning = true) :
    session.interrupt = session.quiet.breakOff := if_pos hrunning

/-- A break puts a run aside. -/
theorem putAside_interrupt (hrunning : session.isRunning = true)
    (hline : session.current.line.isSome) : PutAside session session.interrupt := by
  have haside : PutAside session.quiet session.quiet.breakOff := putAside_breakOff hline
  rw [interrupt_of_isRunning hrunning]
  refine { (kept_quiet session).trans haside.toKept with restart := ?_, halted := haside.halted }
  exact haside.restart

/-- The same lines wait, and lines are numbered as before. -/
structure SameWaiting (session after : Session) : Prop where
  auto : after.settings.auto = session.settings.auto
  loading : after.loading = session.loading
  waiting : after.waiting = session.waiting

theorem sameWaiting_breakOff (session : Session) : SameWaiting session session.breakOff := by
  unfold breakOff
  split <;> exact ⟨rfl, rfl, rfl⟩

/-- A session in which nothing runs or waits. -/
structure AtRest (session : Session) : Prop where
  isRunning : session.isRunning = false
  loading : session.loading = none
  waiting : session.waiting = []

/-- A break leaves nothing that runs or waits. -/
theorem atRest_interrupt (hrunning : session.isRunning = true) : session.interrupt.AtRest := by
  have hbroken := sameWaiting_breakOff session.quiet
  rw [interrupt_of_isRunning hrunning]
  exact ⟨isRunning_breakOff _, hbroken.loading, hbroken.waiting⟩

theorem sameWaiting_begun (session : Session) : SameWaiting session session.begun := by
  unfold begun beginStatement
  split
  · dsimp only
    split <;> exact ⟨rfl, rfl, rfl⟩
  · exact ⟨rfl, rfl, rfl⟩

theorem kept_begun (session : Session) : Kept session session.begun := by
  unfold begun beginStatement
  split
  · dsimp only
    split <;> constructor <;> rfl
  · constructor <;> rfl

theorem stepOrRaise_stop (hstop : session.nextStatement? = some (.command .stop)) :
    session.stepOrRaise = session.begun.breakOff := by
  rw [stepOrRaise_eq, outcome_step hstop]
  rfl

/-- A STOP puts the run after it aside. -/
theorem putAside_stop {cursor : Cursor} (hcursor : session.cursor = some cursor)
    (hline : cursor.line.isSome) (hstop : session.nextStatement? = some (.command .stop)) :
    PutAside { session with cursor := session.program.advance? cursor } session.stepOrRaise := by
  obtain ⟨hcurrent, hnext⟩ : session.begun.current = cursor ∧
      session.begun.cursor = session.program.advance? cursor := by
    rw [begun_of_some hcursor hstop]
    exact ⟨rfl, rfl⟩
  have haside : PutAside session.begun session.begun.breakOff :=
    putAside_breakOff (hcurrent.symm ▸ hline)
  rw [stepOrRaise_stop hstop]
  refine { (kept_begun session).trans haside.toKept with restart := ?_, halted := haside.halted }
  exact haside.restart.trans hnext

/-- A direct line that is typed in is carried out at once where nothing runs or waits and the line gets no
number. -/
theorem enter_direct {text : String} {line : Line} (hbusy : session.isBusy = false)
    (htext : session.numberedText text = (some text, session))
    (hparsed : Parsed.ofTokens (Token.lex text) = ⟨[line], []⟩) (hdirect : line.isDirect = true)
    (hempty : line.isEmpty = false) : session.enter text = (true, session.startDirect line) := by
  have hline : session.takeLine line = session.startDirect line := by
    unfold takeLine
    rw [if_pos hdirect, hempty, hbusy]
    rfl
  unfold enter
  rw [htext]
  dsimp only
  rw [hparsed]
  exact congrArg (Prod.mk true) hline

theorem enter_cont (hhalted : session.isRunning = false) (hauto : session.settings.auto = none)
    (hloading : session.loading = none) (hwaiting : session.waiting = []) :
    session.enter "CONT" = (true, session.startDirect .cont) := by
  have htext : session.numberedText "CONT" = (some "CONT", session) := numberedText_of_auto_none hauto "CONT"
  have hbusy : session.isBusy = false := by
    rw [isBusy, hhalted, hloading, hwaiting]
    rfl
  exact enter_direct hbusy htext (by rw [Token.lex_eq]; decide +kernel) rfl rfl

/-- CONT takes up the statement that was put aside, and the run goes on outside of an error handler. -/
theorem stepOrRaise_cont {cursor : Cursor} (hrestart : session.settings.restart = some cursor)
    (events : List Event) :
    { session.startDirect .cont with events }.stepOrRaise =
      { session with
        program := session.program.insert .cont
        settings := { session.settings with restart := none }
        state := .running
        cursor := some cursor
        current := .start none
        traced := none
        events } := by
  have hnext : nextStatement? { session.startDirect .cont with events } =
      some (.command .cont) := rfl
  rw [stepOrRaise_eq, outcome_step hnext, begun_of_some rfl hnext]
  change settle (cont.outcome _) = _
  unfold cont
  rw [outcome_bind, outcome_get]
  dsimp only [beginStatement, traceText, startDirect, Cursor.start]
  rw [hrestart]
  rfl

/-- A run goes on at a cursor, outside of an error handler, with all that it goes by. -/
structure GoesOn (session : Session) (cursor : Option Cursor) (after : Session) : Prop
    extends Kept session after where
  cursor : after.cursor = cursor
  state : after.state = .running

/-- A run that was put aside goes on with CONT where it was. -/
theorem PutAside.goesOn (h : PutAside session after) (hcursor : session.cursor.isSome)
    (events : List Event) :
    GoesOn session session.cursor { after.startDirect .cont with events }.stepOrRaise := by
  obtain ⟨cursor, hcursor⟩ := Option.isSome_iff_exists.mp hcursor
  rw [stepOrRaise_cont (h.restart.trans hcursor) events, hcursor]
  exact { h.toKept with cursor := rfl, state := rfl }

/-- **CONT undoes a break.** A run that is broken off by the host, or by a STOP, after a statement on
a numbered line and before another statement goes on with CONT where it was, with everything that it
goes by, whatever the host has taken of the events by then. It goes on in the same run state exactly
if it was not in an error handler. After a STOP it is CONT on a direct line that does this, and one
that is typed in is such a line unless lines are being numbered or others wait. -/
theorem cont_undoes_break (session : Session) (hrunning : session.isRunning = true) :
    (session.current.line.isSome → session.cursor.isSome →
      ∃ entered, session.interrupt.enter "CONT" = (true, entered) ∧ ∀ events,
        GoesOn session session.cursor { entered with events }.stepOrRaise ∧
        ({ entered with events }.stepOrRaise.state = session.state ↔ session.state = .running)) ∧
    (∀ cursor, session.cursor = some cursor → cursor.line.isSome →
      session.nextStatement? = some (.command .stop) →
      (session.program.advance? cursor).isSome →
      (∀ events,
        let after := { session.stepOrRaise.startDirect .cont with events }.stepOrRaise
        GoesOn session (session.program.advance? cursor) after ∧
        (after.state = session.state ↔ session.state = .running)) ∧
      (session.settings.auto = none → session.loading = none → session.waiting = [] →
        session.stepOrRaise.enter "CONT" = (true, session.stepOrRaise.startDirect .cont))) := by
  have hsame : ∀ {next after}, GoesOn session next after →
      (after.state = session.state ↔ session.state = .running) := by
    intro next after hgoes
    rw [hgoes.state]
    exact eq_comm
  constructor
  · intro hline hcursor
    have haside := putAside_interrupt hrunning hline
    have hwaits : SameWaiting session.quiet session.interrupt := by
      rw [interrupt_of_isRunning hrunning]
      exact sameWaiting_breakOff session.quiet
    refine ⟨_, enter_cont haside.halted hwaits.auto hwaits.loading hwaits.waiting, fun events => ?_⟩
    have hgoes := haside.goesOn hcursor events
    exact ⟨hgoes, hsame hgoes⟩
  · intro cursor hcursor hline hstop hnext
    have haside := putAside_stop hcursor hline hstop
    refine ⟨fun events => ?_, fun hauto hloading hwaiting => ?_⟩
    · have hgoes : GoesOn session (session.program.advance? cursor) _ :=
        { haside.goesOn hnext events with }
      exact ⟨hgoes, hsame hgoes⟩
    · have hbegun := sameWaiting_begun session
      have hbroken := sameWaiting_breakOff session.begun
      rw [← stepOrRaise_stop hstop] at hbroken
      refine enter_cont haside.halted ?_ ?_ ?_
      · exact (hbroken.auto.trans hbegun.auto).trans hauto
      · exact (hbroken.loading.trans hbegun.loading).trans hloading
      · exact (hbroken.waiting.trans hbegun.waiting).trans hwaiting

/-- A subroutine before its STOP, after a DATA item was read. -/
def beforeStop : Session :=
  afterCalls [.enter "10 READ A$ : GOSUB 30", .enter "20 DATA X", .enter "30 CLS : STOP : RETURN",
    .enter "RUN", .execute 4]

theorem cont_undoes_break_beforeStop :
    beforeStop.Reachable ∧ beforeStop.stack.size = 1 ∧ beforeStop.dataPosition = 1 ∧
      GoesOn beforeStop (some ⟨some 30, [1]⟩)
        { (beforeStop.interrupt.enter "CONT").2 with events := [] }.stepOrRaise ∧
      GoesOn beforeStop (some ⟨some 30, [2]⟩)
        { (beforeStop.stepOrRaise.enter "CONT").2 with events := [] }.stepOrRaise := by
  obtain ⟨⟨hrunning, hline, hcursor, hstop, hnext⟩, ⟨hauto, hloading, hwaiting⟩, hframe, hread⟩ :
      (beforeStop.isRunning = true ∧ beforeStop.current.line = some 30 ∧
        beforeStop.cursor = some ⟨some 30, [1]⟩ ∧
        beforeStop.nextStatement? = some (.command .stop) ∧
        beforeStop.program.advance? ⟨some 30, [1]⟩ = some ⟨some 30, [2]⟩) ∧
      (beforeStop.settings.auto = none ∧ beforeStop.loading = none ∧ beforeStop.waiting = []) ∧
      beforeStop.stack.size = 1 ∧ beforeStop.dataPosition = 1 := by
    rw [beforeStop, afterCalls_eq]
    decide +kernel
  obtain ⟨hbroken, hstopped⟩ := cont_undoes_break beforeStop hrunning
  obtain ⟨entered, henter, hgoes⟩ := hbroken (hline ▸ rfl) (hcursor ▸ rfl)
  obtain ⟨hafter, htyped⟩ := hstopped _ hcursor rfl hstop (hnext ▸ rfl)
  refine ⟨reachable_afterCalls _, hframe, hread, ?_, ?_⟩
  · rw [henter, ← hcursor]
    exact (hgoes []).1
  · rw [htyped hauto hloading hwaiting, ← hnext]
    exact (hafter []).1

/-- An error handler between two of its statements. -/
def inHandler : Session :=
  afterCalls [.enter "10 ON ERROR GOTO 30", .enter "20 ERROR 5", .enter "30 CLS : RESUME NEXT",
    .enter "RUN", .execute 4]

/-- A handler that is broken off goes on as if it were none, and its RESUME fails. -/
theorem cont_leaves_handler :
    inHandler.Reachable ∧ inHandler.state = .trapped ∧ inHandler.current.line = some 30 ∧
      inHandler.cursor = some ⟨some 30, [1]⟩ ∧
      (inHandler.interrupt.enter "CONT").2.stepOrRaise.state = .running ∧
      (inHandler.interrupt.enter "CONT").2.stepOrRaise.cursor = some ⟨some 30, [1]⟩ ∧
      (step.outcome (inHandler.interrupt.enter "CONT").2.stepOrRaise).1 =
        .error (.of .resumeWithoutError) := by
  refine ⟨reachable_afterCalls _, ?_⟩
  rw [enter_eq, inHandler, afterCalls_eq]
  decide +kernel

end Session

end LineBasic
