import LineBasic.Proofs.Budget
import LineBasic.Proofs.Silent

/-! Tracing is silent. Two sessions that differ only in what tracing has to do with take the same steps
with the same faults, and differ only in that again. So whatever a host does with the one and with the
other, both carry out the same statements, and have the same variables, the same stack, the same error
handler and the same DATA position at every point. -/

namespace LineBasic

namespace SessionAct

open Act Session

theorem plain_begun (session : Session) : session.begun.plain = session.plain.begun.plain := by
  cases hnext : session.nextStatement? with
  | none =>
      have hplainly : session.plain.nextStatement? = none := hnext
      rw [begun_of_none hnext, begun_of_none hplainly]
      rfl
  | some next =>
      obtain ⟨cursor, hcursor, -⟩ := exists_cursor hnext
      have hplainly : session.plain.nextStatement? = some next := hnext
      have hplainCursor : session.plain.cursor = some cursor := hcursor
      rw [begun_of_some hcursor hnext, begun_of_some hplainCursor hplainly]
      unfold beginStatement
      split <;> split <;> rfl

theorem unprinted_begun (session : Session) : session.begun.unprinted = session.unprinted := by
  cases hnext : session.nextStatement? with
  | none =>
      rw [begun_of_none hnext]
      rfl
  | some next =>
      obtain ⟨cursor, hcursor, -⟩ := exists_cursor hnext
      rw [begun_of_some hcursor hnext]
      unfold beginStatement
      split
      · exact unprinted_print _ _
      · rfl

/-- What tracing prints before a statement is all that it does. -/
theorem silent_step : Silent step := by
  intro session
  cases hnext : session.nextStatement? with
  | none =>
      have hplainly : session.plain.nextStatement? = none := hnext
      have hend := silent_endOfProgram { session with cursor := none }
      rw [outcome_step_of_none hnext, outcome_step_of_none hplainly]
      exact ⟨hend.result, hend.plain, hend.unprinted⟩
  | some next =>
      have hplainly : session.plain.nextStatement? = some next := hnext
      obtain ⟨hresult, hplain, more, hleft, hright⟩ := (silent_statement next).alike (plain_begun session)
      rw [outcome_step hnext, outcome_step hplainly]
      refine ⟨hresult, hplain, ?_⟩
      rw [hleft, hright, unprinted_begun, unprinted_begun]
      rfl

/-- A fault is handed to the handler or reported, whether lines are traced or not. -/
theorem silent_raise (fault : Fault) :
    Silent (modify fun session : Session => session.raise fault : SessionAct PUnit) := by
  intro session
  rw [outcome_modify, outcome_modify]
  cases hhandler : session.handler? with
  | some handler =>
      have hplainly : session.plain.handler? = some handler := hhandler
      rw [raise_of_handler? hhandler, raise_of_handler? hplainly]
      exact .of_fields rfl rfl rfl
  | none =>
      have hplainly : session.plain.handler? = none := hhandler
      unfold raise
      rw [hhandler, hplainly]
      dsimp only
      split
      · refine ⟨rfl, rfl, (List.filter_append _ _).trans ?_⟩
        exact congrArg (· ++ _) (filter_isPrint_appendPrint "\n" session.events)
      · exact ⟨rfl, rfl, List.filter_append _ _⟩

end SessionAct

namespace Session

open Act SessionAct

variable {session other : Session}

/-- The sessions differ at most in whether lines are traced, the line that was traced last, the print
column and the events. -/
def Alike (session other : Session) : Prop :=
  other =
    { session with
      settings := { session.settings with tracing := other.settings.tracing }
      traced := other.traced
      column := other.column
      events := other.events }

theorem alike_iff : Alike session other ↔ session.plain = other.plain := by
  constructor
  · intro h
    rw [h]
    rfl
  · intro h
    change other =
      { session.plain with
        settings := { session.plain.settings with tracing := other.settings.tracing }
        traced := other.traced
        column := other.column
        events := other.events }
    rw [h]
    rfl

/-- **What one step does to two sessions that differ only in tracing.** -/
theorem plain_stepOrRaise (h : session.plain = other.plain) :
    (step.outcome session).1 = (step.outcome other).1 ∧ session.stepOrRaise.plain = other.stepOrRaise.plain ∧
      ∃ more, session.stepOrRaise.unprinted = session.unprinted ++ more ∧
        other.stepOrRaise.unprinted = other.unprinted ++ more := by
  obtain ⟨hresult, hplain, more, hleft, hright⟩ := silent_step.alike h
  refine ⟨hresult, ?_⟩
  rw [stepOrRaise_eq, stepOrRaise_eq]
  revert hresult hplain hleft hright
  rcases step.outcome session with ⟨fault | value, after⟩ <;>
    rcases step.outcome other with ⟨otherFault | otherValue, otherAfter⟩
  · -- Both fail with the same fault, and raising it reports the same once more.
    intro hresult hplain hleft hright
    cases hresult
    obtain ⟨-, hraised, further, hafter, hotherAfter⟩ := (silent_raise fault).alike hplain
    refine ⟨hraised, more ++ further, hafter.trans ?_, hotherAfter.trans ?_⟩
    · rw [hleft, List.append_assoc]
    · rw [hright, List.append_assoc]
  · intro hresult
    cases hresult
  · intro hresult
    cases hresult
  · exact fun _ hplain hleft hright => ⟨hplain, more, hleft, hright⟩

section Moves

/-- What is done to a session has nothing to do with tracing. -/
def Unheard (change : Session → Session) : Prop :=
  ∀ session : Session, (change session).plain = (change session.plain).plain

theorem Unheard.plain {change : Session → Session} (h : Unheard change) (hplain : session.plain = other.plain) :
    (change session).plain = (change other).plain := by
  rw [h session, h other, hplain]

theorem unheard_raise (fault : Fault) : Unheard fun session => session.raise fault :=
  fun session => (silent_raise fault session).plain

theorem unheard_interrupt : Unheard interrupt := by
  intro session
  by_cases hrunning : session.isRunning = true
  · have hbreak : ∀ running : Session, running.isRunning = true →
        running.interrupt =
          ({ running with
            settings := { running.settings with auto := none }
            loading := none
            waiting := [] } : Session).breakOff :=
      fun running h => if_pos h
    rw [hbreak session hrunning, hbreak session.plain hrunning]
    exact (silent_breakOff _).plain
  · have hnone : ∀ halted : Session, ¬halted.isRunning = true →
        halted.interrupt =
          { halted with
            settings := { halted.settings with auto := none }
            loading := none
            waiting := [] } :=
      fun halted h => if_neg h
    rw [hnone session hrunning, hnone session.plain hrunning]
    rfl

theorem unheard_takeLine (line : Line) : Unheard fun session => session.takeLine line := by
  intro session
  have hbusy : session.plain.isBusy = session.isBusy := rfl
  dsimp only
  unfold takeLine
  rw [hbusy]
  split
  · split
    · rfl
    · split <;> rfl
  · rfl

theorem unheard_takeLines (lines : List Line) : Unheard fun session => lines.foldl takeLine session := by
  induction lines with
  | nil => exact fun _ => rfl
  | cons line rest ih => exact fun session => ih.plain (unheard_takeLine line session)

theorem plain_numberedText (session : Session) (text : String) :
    (session.numberedText text).1 = (session.plain.numberedText text).1 ∧
      (session.numberedText text).2.plain = (session.plain.numberedText text).2.plain := by
  rw [numberedText_eq, numberedText_eq]
  exact ⟨rfl, rfl⟩

theorem unheard_enter (text : String) : Unheard fun session => (session.enter text).2 := by
  intro session
  dsimp only
  obtain ⟨htext, hafter⟩ := plain_numberedText session text
  unfold enter
  revert htext hafter
  rcases session.numberedText text with ⟨entered, after⟩
  rcases session.plain.numberedText text with ⟨plainEntered, plainly⟩
  intro htext hafter
  cases htext
  cases entered with
  | none => exact hafter
  | some text =>
      dsimp only
      split
      · exact (unheard_takeLines _).plain hafter
      · exact hafter

theorem unheard_loadProgram (program : Program) (andRun : Bool) :
    Unheard fun session => session.loadProgram program andRun := by
  cases andRun <;> exact fun _ => rfl

theorem unheard_mergeProgram (program : Program) : Unheard fun session => session.mergeProgram program := by
  intro session
  dsimp only
  unfold mergeProgram
  split
  · exact unheard_raise _ session
  · rfl

theorem unheard_chainProgram (program : Program) (line : Option Nat) (all : Bool) :
    Unheard fun session => session.chainProgram program line all := by
  intro session
  dsimp only
  unfold chainProgram
  dsimp only
  split
  · rfl
  · split
    · rfl
    · exact (unheard_raise _).plain rfl

theorem unheard_completeLoad (answer : Except Fault (List UInt8)) :
    Unheard fun session => session.completeLoad answer := by
  intro session
  have hloading : session.plain.loading = session.loading := rfl
  dsimp only
  unfold completeLoad
  rw [hloading]
  split
  · rfl
  · cases answer with
    | error fault => exact (unheard_raise fault).plain rfl
    | ok bytes =>
        dsimp only
        split
        · refine (unheard_loadProgram _ _).plain ?_
          split <;> rfl
        · refine (unheard_mergeProgram _).plain ?_
          split <;> rfl
        · refine (unheard_chainProgram _ _ _).plain ?_
          split <;> rfl

end Moves

section Turns

/-- A turn is a move. -/
theorem move_of_turn? {next : Session} (h : session.turn? = some next) : Move session next := by
  cases turn_of_turn? h with
  | start hevents hloading hrunning hwaiting => exact .start hevents hloading hrunning hwaiting
  | obey hevents hloading hrunning hbreak => exact .obey hevents hloading hrunning hbreak
  | step hevents hloading hrunning hbreak => exact .step hevents hloading hrunning hbreak

/-- The session once all its events are handed out. -/
def handedOut (session : Session) : Session := { session with events := [] }

theorem moves_handedOut (session : Session) : Relation.ReflTransGen Move session session.handedOut := by
  have hdrain : ∀ events : List Event, Relation.ReflTransGen Move { session with events } session.handedOut := by
    intro events
    induction events with
    | nil => exact .refl
    | cons event rest ih => exact ih.head (.report rfl)
  exact hdrain session.events

/-- The session after a cycle: all its events are handed out, and then it takes its turn. -/
def cycled (session : Session) : Session := session.handedOut.turn?.getD session.handedOut

theorem moves_cycled (session : Session) : Relation.ReflTransGen Move session session.cycled := by
  unfold cycled
  cases hturn : session.handedOut.turn? with
  | none => exact moves_handedOut session
  | some next => exact (moves_handedOut session).tail (move_of_turn? hturn)

theorem cycled_of_turn? {next : Session} (hevents : session.events = []) (hturn : session.turn? = some next) :
    session.cycled = next := by
  have hself : session.handedOut = session := by
    unfold handedOut
    rw [← hevents]
  rw [cycled, hself, hturn]
  rfl

theorem unheard_cycled : Unheard cycled := by
  intro session
  have hnone : session.handedOut.turn? = none → session.plain.handedOut.turn? = none →
      session.cycled.plain = session.plain.cycled.plain := by
    intro h hplainly
    rw [cycled, cycled, h, hplainly]
    rfl
  have hsome : ∀ next plainly : Session, session.handedOut.turn? = some next →
      session.plain.handedOut.turn? = some plainly → next.plain = plainly.plain →
      session.cycled.plain = session.plain.cycled.plain := by
    intro next plainly h hplainly heq
    rw [cycled, cycled, h, hplainly]
    exact heq
  -- What decides about the turn is none of the parts that tracing has to do with, so each case holds of
  -- both sessions at once.
  have hplain : session.handedOut.plain = session.plain.handedOut.plain := rfl
  obtain ⟨turned, hturn⟩ : ∃ turned, session.handedOut.turn? = turned := ⟨_, rfl⟩
  cases turn_of_turn? hturn with
  | told hevents => cases hevents
  | asked hloading => exact hnone hturn (turn?_of_loading hloading)
  | idle hrunning hwaiting => exact hnone hturn (turn?_of_idle hrunning hwaiting)
  | start hevents hloading hrunning hwaiting =>
      exact hsome _ _ hturn (turn?_of_start rfl hloading hrunning hwaiting) rfl
  | obey hevents hloading hrunning hbreak =>
      exact hsome _ _ hturn (turn?_of_obey rfl hloading hrunning hbreak) (unheard_interrupt.plain rfl)
  | step hevents hloading hrunning hbreak =>
      exact hsome _ _ hturn (turn?_of_step rfl hloading hrunning hbreak) (plain_stepOrRaise hplain).2.1

end Turns

section Scripts

/-- What a host does with a session, cycle by cycle. -/
inductive Deed where
  | cycle
  | enter (text : String)
  | interrupt
  | sendKey (stroke : List UInt8)
  | sendBreak
  | completeLoad (answer : Except Fault (List UInt8))

def perform (session : Session) : Deed → Session
  | .cycle => session.cycled
  | .enter text => (session.enter text).2
  | .interrupt => session.interrupt
  | .sendKey stroke => session.sendKey stroke
  | .sendBreak => session.sendBreak
  | .completeLoad answer => session.completeLoad answer

/-- The statement that is carried out, with its place: in a cycle of a run that is neither waiting for
a file nor broken off. -/
def carriedOut (session : Session) : Deed → Option (Cursor × Statement)
  | .cycle =>
      if session.loading.isNone && session.isRunning && !session.keys.breakSeen then
        session.cursor.bind fun cursor => (session.program.statement? cursor).map fun next => (cursor, next)
      else none
  | _ => none

theorem turn?_handedOut (h : (session.loading.isNone && session.isRunning && !session.keys.breakSeen) = true) :
    session.handedOut.turn? = some session.handedOut.stepOrRaise := by
  simp only [Bool.and_eq_true, Option.isNone_iff_eq_none, Bool.not_eq_true'] at h
  obtain ⟨⟨hloading, hrunning⟩, hbreak⟩ := h
  exact turn?_of_step rfl hloading hrunning hbreak

/-- That statement is what the cycle consists of. -/
theorem cycled_of_carriedOut {cursor : Cursor} {next : Statement}
    (h : session.carriedOut .cycle = some (cursor, next)) :
    session.cycled =
      settle ((statement next).outcome (beginStatement { session.handedOut with cursor := none } cursor)) := by
  dsimp only [carriedOut] at h
  split at h
  · rename_i hruns
    obtain ⟨place, hcursor, hplace⟩ := Option.bind_eq_some_iff.mp h
    obtain ⟨found, hfound, heq⟩ := Option.map_eq_some_iff.mp hplace
    cases heq
    have hstep := @outcome_step_of_some session.handedOut cursor next hcursor hfound
    rw [cycled, turn?_handedOut hruns, Option.getD_some, stepOrRaise_eq, hstep]
  · cases h

/-- The statements that are carried out while a host does one thing after another. -/
def executed : Session → List Deed → List (Cursor × Statement)
  | _, [] => []
  | session, deed :: rest => (session.carriedOut deed).toList ++ executed (session.perform deed) rest

/-- The session before everything that a host does with it, and at the end. -/
def history : Session → List Deed → List Session
  | session, [] => [session]
  | session, deed :: rest => session :: history (session.perform deed) rest

theorem unheard_perform (deed : Deed) : Unheard fun session => session.perform deed := by
  cases deed with
  | cycle => exact unheard_cycled
  | enter text => exact unheard_enter text
  | interrupt => exact unheard_interrupt
  | sendKey stroke => exact fun _ => rfl
  | sendBreak => exact fun _ => rfl
  | completeLoad answer => exact unheard_completeLoad answer

theorem carriedOut_plain (session : Session) (deed : Deed) :
    session.plain.carriedOut deed = session.carriedOut deed := by
  cases deed <;> rfl

/-- The same statements are carried out, with the same session but for tracing before each. -/
theorem executed_of_plain (h : session.plain = other.plain) (script : List Deed) :
    executed session script = executed other script ∧
      List.Forall₂ Alike (history session script) (history other script) := by
  induction script generalizing session other with
  | nil => exact ⟨rfl, .cons (alike_iff.mpr h) .nil⟩
  | cons deed rest ih =>
      obtain ⟨hexecuted, hhistory⟩ := ih ((unheard_perform deed).plain h)
      refine ⟨?_, .cons (alike_iff.mpr h) hhistory⟩
      rw [executed, executed, hexecuted, ← carriedOut_plain, h, carriedOut_plain]

/-- What a host does is a sequence of moves. -/
theorem moves_perform (session : Session) (deed : Deed) :
    Relation.ReflTransGen Move session (session.perform deed) := by
  cases deed with
  | cycle => exact moves_cycled session
  | enter text => exact .single (.enter session text)
  | interrupt => exact .single (.interrupt session)
  | sendKey stroke => exact .single (.sendKey session stroke)
  | sendBreak => exact .single (.sendBreak session)
  | completeLoad answer => exact .single (.completeLoad session answer)

theorem moves_script (session : Session) (script : List Deed) :
    Relation.ReflTransGen Move session (script.foldl perform session) := by
  induction script generalizing session with
  | nil => exact .refl
  | cons deed rest ih => exact (moves_perform session deed).trans (ih _)

/-- A move is one deed, or it hands out an event and does nothing else. -/
theorem exists_deed {next : Session} (hmove : Move session next) :
    next.plain = session.plain ∨ ∃ deed, next = session.perform deed := by
  cases hmove with
  | step hevents hloading hrunning hbreak =>
      exact .inr ⟨.cycle, (cycled_of_turn? hevents (turn?_of_step hevents hloading hrunning hbreak)).symm⟩
  | obey hevents hloading hrunning hbreak =>
      exact .inr ⟨.cycle, (cycled_of_turn? hevents (turn?_of_obey hevents hloading hrunning hbreak)).symm⟩
  | start hevents hloading hrunning hwaiting =>
      exact .inr ⟨.cycle, (cycled_of_turn? hevents (turn?_of_start hevents hloading hrunning hwaiting)).symm⟩
  | report _ => exact .inl rfl
  | enter text => exact .inr ⟨.enter text, rfl⟩
  | interrupt => exact .inr ⟨.interrupt, rfl⟩
  | sendKey stroke => exact .inr ⟨.sendKey stroke, rfl⟩
  | sendBreak => exact .inr ⟨.sendBreak, rfl⟩
  | completeLoad answer => exact .inr ⟨.completeLoad answer, rfl⟩

/-- Whatever moves a session makes, some script has it make them, but for tracing. -/
theorem exists_script {after : Session} (h : Relation.ReflTransGen Move session after) :
    ∃ script : List Deed, (script.foldl perform session).plain = after.plain := by
  induction h with
  | refl => exact ⟨[], rfl⟩
  | tail _ hmove ih =>
      obtain ⟨script, hscript⟩ := ih
      obtain hsame | ⟨deed, rfl⟩ := exists_deed hmove
      · exact ⟨script, hscript.trans hsame.symm⟩
      · refine ⟨script ++ [deed], ?_⟩
        rw [List.foldl_append]
        exact (unheard_perform deed).plain hscript

end Scripts

/-- **Tracing does nothing but print.** Two sessions that differ at most in whether lines are traced, the
line that was traced last, the print column and the events take a step with the same result, and differ
at most in these parts again, with the same events added but for printed text. Whether TRON or TROFF was
carried out is no other difference. So from such sessions, whatever a host does, the same statements are
carried out, each in a cycle of its own, and at every point between two of the host's deeds the sessions
differ at most in these parts. What a host does makes the session move, and no session is reached by moves
that some deeds do not lead to, but for these parts. -/
theorem tracing_is_silent :
    (∀ session other : Session, Alike session other →
      (step.outcome session).1 = (step.outcome other).1 ∧
        Alike session.stepOrRaise other.stepOrRaise ∧
        ∃ more, session.stepOrRaise.unprinted = session.unprinted ++ more ∧
          other.stepOrRaise.unprinted = other.unprinted ++ more) ∧
    (∀ session : Session,
      Alike ((command .traceOn).outcome session).2 ((command .traceOff).outcome session).2) ∧
    (∀ session other : Session, Alike session other → ∀ script,
      executed session script = executed other script ∧
        List.Forall₂ Alike (history session script) (history other script)) ∧
    (∀ (session : Session) (cursor : Cursor) (next : Statement),
      session.carriedOut .cycle = some (cursor, next) →
        session.perform .cycle =
          settle ((statement next).outcome (beginStatement { session.handedOut with cursor := none } cursor))) ∧
    (∀ (session : Session) (script : List Deed),
      Relation.ReflTransGen Move session (script.foldl perform session)) ∧
    ∀ session after : Session, Relation.ReflTransGen Move session after →
      ∃ script : List Deed, Alike (script.foldl perform session) after := by
  refine ⟨fun session other halike => ?_, fun _ => rfl, fun session other halike script => ?_,
    fun _ _ _ => cycled_of_carriedOut, moves_script, fun session after hmoves => ?_⟩
  · obtain ⟨hresult, hplain, hevents⟩ := plain_stepOrRaise (alike_iff.mp halike)
    exact ⟨hresult, alike_iff.mpr hplain, hevents⟩
  · exact executed_of_plain (alike_iff.mp halike) script
  · obtain ⟨script, hscript⟩ := exists_script hmoves
    exact ⟨script, alike_iff.mpr hscript⟩

/-- A loop that prints in zones, right before its first line. -/
def beforeZones : Session :=
  afterCalls [.enter "10 A=A+1:PRINT A,A", .enter "20 GOTO 10", .enter "RUN", .execute 1]

/-- The same with TRON, in the middle of a line of the screen. -/
def beforeTracedZones : Session :=
  { beforeZones with settings := { beforeZones.settings with tracing := true }, column := 3 }

/-- With TRON four statements are traced and print in other columns, but they are the same statements. -/
theorem tracing_is_silent_beforeZones :
    executed beforeTracedZones (List.replicate 4 .cycle) = executed beforeZones (List.replicate 4 .cycle) ∧
      (executed beforeZones (List.replicate 4 .cycle)).map (fun place => place.1.line) =
        [some 10, some 10, some 20, some 10] ∧
      ((List.replicate 2 Deed.cycle).foldl perform beforeTracedZones).events ≠
        ((List.replicate 2 Deed.cycle).foldl perform beforeZones).events := by
  obtain ⟨-, -, hscripts, -⟩ := tracing_is_silent
  have halike : ∀ session : Session, Alike
      { session with settings := { session.settings with tracing := true }, column := 3 } session := fun _ => rfl
  refine ⟨(hscripts _ _ (halike beforeZones) _).1, ?_⟩
  rw [beforeTracedZones, beforeZones, afterCalls_eq]
  decide +kernel

end Session

end LineBasic
