import LineBasic.Proofs.Reachable

/-! Error handlers. While a handler runs, the fault that it handles and the statement to return to
stay known, through everything but a RESUME; and a fault inside a handler ends the run. A RESUME that
names a missing line breaks both rules: it has left the handler when it fails, so its own fault is
handed to the handler again, in place of the one before. -/

namespace LineBasic

/-- Whether the statement is a RESUME that names a line. -/
def Statement.resumesAtLine : Statement → Bool
  | .command (.resume (.line _)) => true
  | _ => false

theorem Statement.exists_of_resumesAtLine {next : Option Statement}
    (h : next.any resumesAtLine = true) :
    ∃ line, next = some (.command (.resume (.line line))) := by
  obtain ⟨statement, rfl, hline⟩ := (Option.any_eq_true _ next).mp h
  unfold resumesAtLine at hline
  split at hline
  · exact ⟨_, rfl⟩
  · cases hline

namespace Session

open Act SessionAct

variable {session after raised : Session} {fault : Fault}

theorem isRunning_of_trapped (h : session.state = .trapped) : session.isRunning = true := by
  rw [isRunning, h]
  rfl

/-- A fault is not handled where another one is. -/
theorem handler?_of_trapped (h : session.state = .trapped) : session.handler? = none := by
  apply handler?_of_state
  rw [h]
  decide

theorem state_raise_ne (h : session.handler? = none) (fault : Fault) :
    (session.raise fault).state ≠ .trapped := by
  rw [(stoppedWith_raise fault h).state]
  decide

/-- The fault that is being handled, and the statement to return to, are the same. -/
structure SameFault (session after : Session) : Prop where
  resume : after.settings.resume = session.settings.resume
  faultCode : after.settings.faultCode = session.settings.faultCode
  faultLine : after.settings.faultLine = session.settings.faultLine

theorem SameFault.refl (session : Session) : SameFault session session := ⟨rfl, rfl, rfl⟩

theorem SameFault.trans {first second third : Session} (h : SameFault first second)
    (h' : SameFault second third) : SameFault first third where
  resume := h'.resume.trans h.resume
  faultCode := h'.faultCode.trans h.faultCode
  faultLine := h'.faultLine.trans h.faultLine

theorem Steady.sameFault (h : Steady session after) : SameFault session after :=
  ⟨h.resume, h.faultCode, h.faultLine⟩

/-- A statement after which its handler still runs leaves the fault alone, unless it is a RESUME. -/
theorem sameFault_of_effect {next : Option Statement} {outcome : Except Fault Unit × Session}
    (heffect : Effect next session outcome) (hstate : session.state = .trapped)
    (hafter : (settle outcome).state = .trapped) :
    SameFault session (settle outcome) ∨ next.any Statement.resumesAtLine = true := by
  cases heffect with
  | ordinary hchanges =>
      have hsteady := hchanges.steady
      rcases outcome with ⟨fault | value, after⟩
      · exact absurd hafter (state_raise_ne (handler?_of_trapped (hsteady.state.trans hstate)) fault)
      · exact .inl hsteady.sameFault
  | loads hchanges request =>
      exact .inl ⟨hchanges.steady.resume, hchanges.steady.faultCode, hchanges.steady.faultLine⟩
  | traps line _ => exact .inl ⟨rfl, rfl, rfl⟩
  | halts _ hhalted _ =>
      have hruns : Session.isRunning _ = true := isRunning_of_trapped hafter
      rw [settle, hhalted] at hruns
      cases hruns
  | runs _ hruns =>
      rw [settle, hruns] at hafter
      cases hafter
  | rethrows _ => exact absurd hafter (state_raise_ne (handler?_of_onError rfl) _)
  | strays hnext _ =>
      rw [hnext]
      exact .inr rfl

theorem sameFault_stepOrRaise (hstate : session.state = .trapped)
    (hafter : session.stepOrRaise.state = .trapped) :
    SameFault session session.stepOrRaise ∨
      session.nextStatement?.any Statement.resumesAtLine = true := by
  have hbegun := steady_begun session
  have hsame : SameFault session session.begun :=
    ⟨hbegun.resume, hbegun.faultCode, hbegun.faultLine⟩
  have heffect := effect_step (isRunning_of_trapped hstate)
  exact (sameFault_of_effect heffect (hbegun.state.trans hstate) hafter).imp_left hsame.trans

theorem sameFault_enter (session : Session) (text : String) :
    SameFault session (session.enter text).2 := by
  have hentries := entries_enter session text
  generalize (session.enter text).2 = after at hentries
  induction hentries with
  | refl => exact .refl session
  | tail _ hentry ih =>
      cases hentry with
      | auto | wait | start | store | report => exact ⟨ih.resume, ih.faultCode, ih.faultLine⟩

/-- A file that comes in ends the run of a handler, or was not asked for. -/
theorem completeLoad_of_trapped (hstate : session.state = .trapped)
    (answer : Except Fault (List UInt8))
    (hafter : (session.completeLoad answer).state = .trapped) :
    session.completeLoad answer = session := by
  unfold completeLoad at hafter ⊢
  split at hafter
  · rfl
  · exfalso
    dsimp only at hafter
    cases answer with
    | error fault =>
        refine state_raise_ne ?_ fault hafter
        exact handler?_of_trapped hstate
    | ok bytes =>
        dsimp only at hafter
        split at hafter
        · unfold loadProgram at hafter
          dsimp only at hafter
          split at hafter <;> cases hafter
        · unfold mergeProgram at hafter
          split at hafter
          · refine state_raise_ne (handler?_of_trapped ?_) _ hafter
            split <;> exact hstate
          · cases hafter
        · unfold chainProgram at hafter
          dsimp only at hafter
          split at hafter
          · cases hafter
          · split at hafter
            · cases hafter
            · exact state_raise_ne (handler?_of_onError rfl) _ hafter

/-- After a break nothing runs. -/
theorem isRunning_interrupt (session : Session) : session.interrupt.isRunning = false := by
  unfold interrupt
  dsimp only
  split
  · exact isRunning_breakOff _
  · rename_i hrunning
    rwa [Bool.not_eq_true] at hrunning

theorem state_interrupt_ne (session : Session) : session.interrupt.state ≠ .trapped := by
  intro htrapped
  have hhalted := isRunning_interrupt session
  rw [isRunning_of_trapped htrapped] at hhalted
  cases hhalted

/-- A move after which the handler still runs leaves the fault alone, unless it carries out a
RESUME. -/
theorem sameFault_of_move (hmove : Move session after) (hstate : session.state = .trapped)
    (hafter : after.state = .trapped) :
    SameFault session after ∨
      session.nextStatement?.any Statement.resumesAtLine = true ∧ after = session.stepOrRaise := by
  cases hmove with
  | step => exact (sameFault_stepOrRaise hstate hafter).imp_right fun hresumes => ⟨hresumes, rfl⟩
  | obey | interrupt => exact absurd hafter (state_interrupt_ne _)
  | start _ _ hrunning _ =>
      rw [isRunning_of_trapped hstate] at hrunning
      cases hrunning
  | report | sendKey | sendBreak => exact .inl ⟨rfl, rfl, rfl⟩
  | enter text => exact .inl (sameFault_enter session text)
  | completeLoad answer =>
      rw [completeLoad_of_trapped hstate answer hafter]
      exact .inl (.refl session)

/-- A move after which the handler still runs, and that carries out no RESUME. -/
structure HandlerMove (session after : Session) : Prop where
  move : Move session after
  state : after.state = .trapped
  resumes : session.nextStatement?.any Statement.resumesAtLine = true → after ≠ session.stepOrRaise

theorem sameFault_of_moves {first last : Session} (hstate : first.state = .trapped)
    (hrun : Relation.ReflTransGen HandlerMove first last) :
    SameFault first last ∧ last.state = .trapped := by
  induction hrun with
  | refl => exact ⟨.refl first, hstate⟩
  | tail _ hlast ih =>
      rcases sameFault_of_move hlast.move ih.2 hlast.state with hsame | ⟨hresumes, heq⟩
      · exact ⟨ih.1.trans hsame, hlast.state⟩
      · exact absurd heq (hlast.resumes hresumes)

theorem located_code (session : Session) (fault : Fault) :
    (session.located fault).code = fault.code := by
  unfold located
  split <;> rfl

theorem located_line (session : Session) (fault : Fault) :
    (session.located fault).line = fault.line.or session.current.line := by
  unfold located Fault.isDirect
  cases hline : fault.line with
  | none => rfl
  | some line => exact hline

/-- A fault that is handed to the handler is recorded with the statement that it arose in. -/
theorem recorded_of_trapped {cursor : Cursor} (hcurrent : raised.current = cursor)
    (htrapped : (raised.raise fault).state = .trapped) :
    (raised.raise fault).settings.resume = some cursor ∧
      (raised.raise fault).settings.faultCode = fault.code ∧
      (raised.raise fault).settings.faultLine = fault.line.or cursor.line := by
  cases hhandler : raised.handler? with
  | none => exact absurd htrapped (state_raise_ne hhandler fault)
  | some handler =>
      rw [raise_of_handler? hhandler, ← hcurrent]
      exact ⟨rfl, located_code raised fault, located_line raised fault⟩

theorem stepOrRaise_of_error (hfault : step.outcome session = (.error fault, raised)) :
    session.stepOrRaise = raised.raise fault := by
  rw [stepOrRaise_eq, hfault]
  rfl

/-- A fault outside of a handler leaves the session where its statement began. -/
theorem steady_of_error (hstate : session.state = .running)
    (hfault : step.outcome session = (.error fault, raised)) : Steady session.begun raised := by
  have hrunning : session.isRunning = true := by
    rw [isRunning, hstate]
    rfl
  have heffect := effect_step hrunning
  have hbegun := (steady_begun session).state
  rw [hfault] at heffect
  cases heffect with
  | ordinary hchanges => exact hchanges.steady
  | rethrows htrapped | strays _ htrapped =>
      rw [hbegun] at htrapped
      cases hstate.symm.trans htrapped

theorem nextStatement?_of_error (hstate : session.state = .running)
    (hfault : step.outcome session = (.error fault, raised)) : session.nextStatement?.isSome := by
  cases hnext : session.nextStatement? with
  | some next => rfl
  | none =>
      rw [outcome_step_of_none hnext] at hfault
      unfold endOfProgram at hfault
      rw [outcome_bind, outcome_get] at hfault
      dsimp only at hfault
      rw [if_neg (by rw [hstate]; decide)] at hfault
      cases hfault

/-- RESUME goes on outside of the handler, at the statement that failed or after it. -/
theorem stepOrRaise_resume {failed : Cursor} {target : ResumeAt} (hstate : session.state = .trapped)
    (hresume : session.settings.resume = some failed)
    (hnext : session.nextStatement? = some (.command (.resume target))) :
    session.stepOrRaise = settle
      ((match target with
        | .retry => goOnAt (some failed)
        | .next => goOnAt (session.program.advance? failed)
        | .line number => goto number).outcome session.begun.leaveHandler) := by
  have hbegun := steady_begun session
  rw [stepOrRaise_eq, outcome_step hnext, ← show session.begun.program = session.program from
    hbegun.program]
  exact congrArg settle
    (outcome_resume (hbegun.state.trans hstate) (hbegun.resume.trans hresume) target)

/-- A RESUME that fails in a handler names a missing line, and it has left the handler by then. -/
theorem raised_of_resume {failed : Cursor} {line : Nat} (hstate : session.state = .trapped)
    (hresume : session.settings.resume = some failed)
    (hnext : session.nextStatement? = some (.command (.resume (.line line))))
    (hfault : step.outcome session = (.error fault, raised)) :
    session.program.lines.contains line = false ∧ fault = .of .undefinedLineNumber ∧
      raised = session.begun.leaveHandler := by
  have hbegun := steady_begun session
  have houtcome : step.outcome session = (goto line).outcome session.begun.leaveHandler := by
    rw [outcome_step hnext]
    exact outcome_resume (hbegun.state.trans hstate) (hbegun.resume.trans hresume) (.line line)
  rw [houtcome, outcome_goto] at hfault
  split at hfault
  · cases hfault
  · rename_i hstart
    cases hfault
    obtain ⟨hmissing, rfl⟩ := Program.start_eq_error hstart
    refine ⟨?_, rfl, rfl⟩
    rwa [show session.begun.leaveHandler.program = session.program from hbegun.program] at hmissing

theorem StoppedWith.of_faults (h : StoppedWith fault raised after)
    (hfaults : raised.events.filter Event.isFaults = session.events.filter Event.isFaults) :
    StoppedWith fault session after :=
  ⟨h.state, h.cursor, hfaults ▸ h.faults⟩

/-- A fault in a handler ends the run, unless RESUME raised it. -/
theorem stoppedWith_of_trapped (hstate : session.state = .trapped)
    (hfault : step.outcome session = (.error fault, raised))
    (hresumes : session.nextStatement?.any Statement.resumesAtLine = false) :
    StoppedWith (raised.located fault) session session.stepOrRaise := by
  have hbegun := steady_begun session
  have heffect := effect_step (isRunning_of_trapped hstate)
  rw [stepOrRaise_of_error hfault]
  rw [hfault] at heffect
  cases heffect with
  | ordinary hchanges =>
      have hsteady := hchanges.steady
      have hhandler := handler?_of_trapped ((hsteady.state.trans hbegun.state).trans hstate)
      exact (stoppedWith_raise fault hhandler).of_faults (hsteady.faults.trans hbegun.faults)
  | rethrows _ =>
      have hhandler : session.begun.dropHandler.handler? = none := handler?_of_onError rfl
      exact (stoppedWith_raise _ hhandler).of_faults hbegun.faults
  | strays hnext _ =>
      rw [hnext] at hresumes
      cases hresumes

/-- Only a RESUME that names a line fails in a handler and is handed to the handler again. -/
theorem exists_line_of_retrapped (hstate : session.state = .trapped)
    (hfault : step.outcome session = (.error fault, raised))
    (htrapped : session.stepOrRaise.state = .trapped) :
    ∃ line, session.nextStatement? = some (.command (.resume (.line line))) := by
  cases hresumes : session.nextStatement?.any Statement.resumesAtLine with
  | true => exact Statement.exists_of_resumesAtLine hresumes
  | false =>
      have hstops := stoppedWith_of_trapped hstate hfault hresumes
      rw [hstops.state] at htrapped
      cases htrapped

/-- **The place to return to survives the handler.** Where the statement at a cursor raises a fault
that is handled, that cursor and the fault stay on record through every run inside the handler that
carries out no RESUME with a line number; then RESUME goes on at the cursor and RESUME NEXT after it,
outside of the handler. A fault inside of a handler that is handled again comes from a RESUME that
names a missing line, and takes the place of the one on record. -/
theorem resume_point_survives_handler {session raised : Session} {cursor : Cursor} {fault : Fault}
    (hcursor : session.cursor = some cursor)
    (hfault : step.outcome session = (.error fault, raised))
    (htrapped : session.stepOrRaise.state = .trapped) :
    (session.state = .running →
      ∀ last, Relation.ReflTransGen HandlerMove session.stepOrRaise last →
        last.settings.resume = some cursor ∧
        last.settings.faultCode = fault.code ∧
        last.settings.faultLine = fault.line.or cursor.line ∧
        (last.nextStatement? = some (.command (.resume .retry)) →
          last.stepOrRaise.cursor = some cursor ∧ last.stepOrRaise.state = .running ∧
            last.stepOrRaise.settings.resume = none) ∧
        (last.nextStatement? = some (.command (.resume .next)) →
          last.stepOrRaise.cursor = last.program.advance? cursor ∧
            last.stepOrRaise.state = .running ∧ last.stepOrRaise.settings.resume = none)) ∧
    (session.Reachable → session.state = .trapped →
      ∃ line, session.nextStatement? = some (.command (.resume (.line line))) ∧
        session.program.lines.contains line = false ∧
        session.stepOrRaise.settings.resume = some cursor ∧
        session.stepOrRaise.settings.faultCode = Cause.undefinedLineNumber.code ∧
        session.stepOrRaise.settings.faultLine = cursor.line) := by
  constructor
  · intro hstate last hrun
    obtain ⟨hsame, hlast⟩ := sameFault_of_moves htrapped hrun
    obtain ⟨next, hnext⟩ := Option.isSome_iff_exists.mp (nextStatement?_of_error hstate hfault)
    have hcurrent : raised.current = cursor :=
      (steady_of_error hstate hfault).current.trans (current_begun hcursor hnext)
    rw [stepOrRaise_of_error hfault] at hsame htrapped
    obtain ⟨hresume, hcode, hline⟩ := recorded_of_trapped hcurrent htrapped
    have hrecorded := hsame.resume.trans hresume
    refine ⟨hrecorded, hsame.faultCode.trans hcode, hsame.faultLine.trans hline, ?_, ?_⟩
    · intro hretry
      rw [stepOrRaise_resume hlast hrecorded hretry]
      exact ⟨rfl, rfl, rfl⟩
    · intro hskip
      rw [stepOrRaise_resume hlast hrecorded hskip]
      exact ⟨rfl, rfl, rfl⟩
  · intro hreachable hstate
    obtain ⟨line, hnext⟩ := exists_line_of_retrapped hstate hfault htrapped
    obtain ⟨failed, hresume⟩ := Option.isSome_iff_exists.mp (hreachable.consistent.trap hstate).1
    obtain ⟨hmissing, rfl, rfl⟩ := raised_of_resume hstate hresume hnext hfault
    have hcurrent : session.begun.leaveHandler.current = cursor := current_begun hcursor hnext
    rw [stepOrRaise_of_error hfault] at htrapped ⊢
    exact ⟨line, hnext, hmissing, recorded_of_trapped hcurrent htrapped⟩

/-- A run before a fault whose handler does something and then goes on after the fault. -/
def beforeFault : Session :=
  afterCalls [.enter "10 ON ERROR GOTO 100", .enter "20 ERROR 5", .enter "100 CLS : RESUME NEXT",
    .enter "RUN", .execute 2]

theorem resume_point_survives_handler_beforeFault :
    beforeFault.stepOrRaise.stepOrRaise.settings.resume = some ⟨some 20, [0]⟩ ∧
      beforeFault.stepOrRaise.stepOrRaise.stepOrRaise.cursor =
        beforeFault.stepOrRaise.stepOrRaise.program.advance? ⟨some 20, [0]⟩ := by
  -- The fault of line 20, and then CLS in the handler.
  obtain ⟨hstate, hcursor, hresult, htrapped⟩ : beforeFault.state = .running ∧
      beforeFault.cursor = some ⟨some 20, [0]⟩ ∧
      (step.outcome beforeFault).1 = .error ⟨5, none, ""⟩ ∧
      beforeFault.stepOrRaise.state = .trapped := by
    rw [beforeFault, afterCalls_eq]
    decide +kernel
  obtain ⟨hevents, hloading, hrunning, hbreak, hstays, hnone, hnext⟩ :
      beforeFault.stepOrRaise.events = [] ∧ beforeFault.stepOrRaise.loading = none ∧
      beforeFault.stepOrRaise.isRunning = true ∧
      beforeFault.stepOrRaise.keys.breakSeen = false ∧
      beforeFault.stepOrRaise.stepOrRaise.state = .trapped ∧
      beforeFault.stepOrRaise.nextStatement?.any Statement.resumesAtLine = false ∧
      beforeFault.stepOrRaise.stepOrRaise.nextStatement? = some (.command (.resume .next)) := by
    rw [beforeFault, afterCalls_eq]
    decide +kernel
  have hrun : Relation.ReflTransGen HandlerMove beforeFault.stepOrRaise
      beforeFault.stepOrRaise.stepOrRaise :=
    .single ⟨.step hevents hloading hrunning hbreak, hstays,
      fun hresumes => absurd (hnone.symm.trans hresumes) (by decide)⟩
  obtain ⟨hresume, -, -, -, hskips⟩ :=
    (resume_point_survives_handler hcursor (outcome_eq_of_fst hresult) htrapped).1 hstate _ hrun
  exact ⟨hresume, (hskips hnext).1⟩

/-- The statement to return to is lost in a handler that RESUME fails to leave. -/
theorem resume_point_lost :
    (atLostResume.state = .trapped ∧
      atLostResume.settings.resume = some ⟨some 20, [0]⟩ ∧
      atLostResume.settings.faultCode = 5 ∧
      atLostResume.stepOrRaise.state = .trapped ∧
      atLostResume.stepOrRaise.settings.resume = some ⟨some 100, [0]⟩ ∧
      atLostResume.stepOrRaise.settings.faultCode = 8) ∧
    atLostResume.Reachable ∧ Move atLostResume atLostResume.stepOrRaise := by
  obtain ⟨⟨hevents, hloading, hrunning, hbreak⟩, hlost⟩ :
      (atLostResume.events = [] ∧ atLostResume.loading = none ∧ atLostResume.isRunning = true ∧
        atLostResume.keys.breakSeen = false) ∧
      (atLostResume.state = .trapped ∧
        atLostResume.settings.resume = some ⟨some 20, [0]⟩ ∧
        atLostResume.settings.faultCode = 5 ∧
        atLostResume.stepOrRaise.state = .trapped ∧
        atLostResume.stepOrRaise.settings.resume = some ⟨some 100, [0]⟩ ∧
        atLostResume.stepOrRaise.settings.faultCode = 8) := by
    rw [atLostResume, afterCalls_eq]
    decide +kernel
  exact ⟨hlost, reachable_afterCalls _, .step hevents hloading hrunning hbreak⟩

/-- Where RESUME has left the handler, a fault goes to the handler again as long as its line is
there. -/
theorem handler?_leaveHandler (session : Session) :
    session.begun.leaveHandler.handler? =
      (session.settings.onError.filter session.program.lines.contains).map
        fun line => .start (some line) := by
  have hbegun := steady_begun session
  rw [← show session.begun.settings.onError = session.settings.onError from hbegun.onError,
    ← show session.begun.program = session.program from hbegun.program]
  cases honError : session.begun.settings.onError with
  | none => exact handler?_of_onError honError
  | some line =>
      have hhandler : session.begun.leaveHandler.handler? =
          (session.begun.program.start line).toOption := handler?_of_running rfl honError
      rw [hhandler, Program.start]
      cases hcontains : session.begun.program.lines.contains line with
      | true =>
          rw [Option.filter_some_pos hcontains]
          rfl
      | false =>
          rw [Option.filter_some_neg hcontains]
          rfl

/-- **A fault in a handler ends the run**: the session stops, nothing is left to be carried out, and
the fault is reported once. The one exception is a RESUME that names a missing line, while the line
of the handler is there: the handler is entered again, without a report. -/
theorem handler_fault_stops {session raised : Session} {fault : Fault}
    (hreachable : session.Reachable) (hstate : session.state = .trapped)
    (hfault : step.outcome session = (.error fault, raised)) :
    (¬(session.nextStatement?.any Statement.resumesAtLine = true ∧
        session.settings.onError.any session.program.lines.contains = true) →
      StoppedWith (raised.located fault) session session.stepOrRaise) ∧
    (session.nextStatement?.any Statement.resumesAtLine = true →
      ∀ line, session.settings.onError = some line →
        session.program.lines.contains line = true →
        session.stepOrRaise.state = .trapped ∧
          session.stepOrRaise.cursor = some (.start (some line)) ∧
          session.stepOrRaise.events.filter Event.isFaults =
            session.events.filter Event.isFaults) := by
  obtain ⟨failed, hresume⟩ := Option.isSome_iff_exists.mp (hreachable.consistent.trap hstate).1
  have hbegun := steady_begun session
  have hleft : session.nextStatement?.any Statement.resumesAtLine = true →
      raised = session.begun.leaveHandler := by
    intro hresumes
    obtain ⟨line, hnext⟩ := Statement.exists_of_resumesAtLine hresumes
    exact (raised_of_resume hstate hresume hnext hfault).2.2
  constructor
  · intro hordinary
    cases hresumes : session.nextStatement?.any Statement.resumesAtLine with
    | false => exact stoppedWith_of_trapped hstate hfault hresumes
    | true =>
        have hmissing : session.settings.onError.filter session.program.lines.contains = none := by
          rw [Option.filter_eq_none_iff]
          intro line honError hcontains
          rw [honError, hresumes] at hordinary
          exact hordinary ⟨rfl, hcontains⟩
        have hhandler : raised.handler? = none := by
          rw [hleft hresumes, handler?_leaveHandler, hmissing]
          rfl
        rw [stepOrRaise_of_error hfault]
        refine (stoppedWith_raise fault hhandler).of_faults ?_
        rw [hleft hresumes]
        exact hbegun.faults
  · intro hresumes line honError hcontains
    have hhandler : raised.handler? = some (.start (some line)) := by
      rw [hleft hresumes, handler?_leaveHandler, honError, Option.filter_some_pos hcontains]
      rfl
    rw [stepOrRaise_of_error hfault, raise_of_handler? hhandler, hleft hresumes]
    exact ⟨rfl, rfl, hbegun.faults⟩

/-- A run in a handler whose next statement fails as well. -/
def inFailingHandler : Session :=
  afterCalls [.enter "10 ON ERROR GOTO 100", .enter "20 ERROR 5", .enter "100 ERROR 6",
    .enter "RUN", .execute 3]

theorem handler_fault_stops_inFailingHandler :
    inFailingHandler.Reachable ∧ inFailingHandler.state = .trapped ∧
      inFailingHandler.settings.onError = some 100 ∧
      StoppedWith ⟨6, some 100, ""⟩ inFailingHandler inFailingHandler.stepOrRaise := by
  have hreachable : inFailingHandler.Reachable := reachable_afterCalls _
  obtain ⟨hstate, hresult, hresumes, honError, hlocated⟩ : inFailingHandler.state = .trapped ∧
      (step.outcome inFailingHandler).1 = .error ⟨6, none, ""⟩ ∧
      inFailingHandler.nextStatement?.any Statement.resumesAtLine = false ∧
      inFailingHandler.settings.onError = some 100 ∧
      (step.outcome inFailingHandler).2.located ⟨6, none, ""⟩ = ⟨6, some 100, ""⟩ := by
    rw [inFailingHandler, afterCalls_eq]
    decide +kernel
  have hstops := (handler_fault_stops hreachable hstate (outcome_eq_of_fst hresult)).1
    fun hlost => absurd (hresumes.symm.trans hlost.1) (by decide)
  exact ⟨hreachable, hstate, honError, hlocated ▸ hstops⟩

/-- A fault in a handler is handed to the handler again where RESUME names a missing line. -/
theorem lost_resume_retrapped :
    atLostResume.Reachable ∧ atLostResume.state = .trapped ∧
      (step.outcome atLostResume).1 = .error (.of .undefinedLineNumber) ∧
      atLostResume.stepOrRaise.state = .trapped ∧
      atLostResume.stepOrRaise.cursor = some (.start (some 100)) ∧
      atLostResume.stepOrRaise.events.filter Event.isFaults = [] := by
  refine ⟨reachable_afterCalls _, ?_⟩
  rw [atLostResume, afterCalls_eq]
  decide +kernel

end Session

end LineBasic
