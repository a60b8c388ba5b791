import LineBasic.Proofs.Effect
import LineBasic.Proofs.Evaluation

/-! What holds in every session that a host can bring about. A session that does not run has no next
statement; while a fault is handled, its handler and the place to return to are known; a file is
asked for only in the middle of a run; and neither open calls nor frames pile up. Each move keeps
these facts, so every run keeps them. -/

namespace LineBasic

namespace Session

variable {session after : Session} {fault : Fault}

section Raise

theorem handler?_of_state (h : session.state ≠ .running) : session.handler? = none := by
  unfold handler?
  split
  · exact absurd ‹_› h
  · rfl

theorem handler?_of_onError (h : session.settings.onError = none) : session.handler? = none := by
  unfold handler?
  rw [h]

theorem handler?_of_running {line : Nat} (hstate : session.state = .running)
    (honError : session.settings.onError = some line) :
    session.handler? = (session.program.start line).toOption := by
  unfold handler?
  rw [hstate, honError]

theorem onError_of_handler? {handler : Cursor} (h : session.handler? = some handler) :
    session.settings.onError.isSome := by
  cases honError : session.settings.onError with
  | none =>
      rw [handler?_of_onError honError] at h
      cases h
  | some line => rfl

/-- A fault for which there is a handler is handed to it. -/
theorem raise_of_handler? {handler : Cursor} (h : session.handler? = some handler) :
    session.raise fault =
      { session with
        settings := { session.settings with
          faultCode := (session.located fault).code
          faultLine := (session.located fault).line
          resume := some session.current }
        cursor := some handler
        state := .trapped } := by
  unfold raise
  rw [h]

/-- The session has stopped with a fault: nothing is left to be carried out, and one report of the
fault was added. -/
structure StoppedWith (fault : Fault) (session after : Session) : Prop where
  state : after.state = .stopped
  cursor : after.cursor = none
  faults : after.events.filter Event.isFaults =
    session.events.filter Event.isFaults ++ [.faults [fault]]

/-- A fault for which there is no handler ends the run. -/
theorem stoppedWith_raise (fault : Fault) (h : session.handler? = none) :
    StoppedWith (session.located fault) session (session.raise fault) := by
  unfold raise
  rw [h]
  dsimp only
  split
  · refine ⟨rfl, rfl, (List.filter_append _ _).trans ?_⟩
    exact congrArg (· ++ _) (filter_isFaults_appendPrint "\n" session.events)
  · exact ⟨rfl, rfl, List.filter_append _ _⟩

theorem tidy_raise (session : Session) (fault : Fault) : Tidy session (session.raise fault) := by
  unfold raise
  dsimp only
  split
  · exact ⟨rfl, rfl, id⟩
  · split <;> exact ⟨rfl, rfl, id⟩

/-- The session after an outcome, where a fault has been raised. -/
def settle : Except Fault Unit × Session → Session
  | (.ok _, after) => after
  | (.error fault, after) => after.raise fault

theorem stepOrRaise_eq (session : Session) :
    session.stepOrRaise = settle (SessionAct.step.outcome session) := rfl

end Raise

/-- What the parts of a session have to do with one another. -/
structure Consistent (session : Session) : Prop where
  cursor : session.isRunning = false → session.cursor = none
  trap : session.state = .trapped →
    session.settings.resume.isSome ∧ session.settings.onError.isSome
  loading : session.loading.isSome → session.isRunning = true
  depth : session.work.depth = 0
  size : session.stack.size ≤ Stack.maxSize

/-- Nothing is asked for while nothing runs. -/
theorem Consistent.loading_eq_none (h : Consistent session) (hrunning : session.isRunning = false) :
    session.loading = none := by
  rw [← Option.not_isSome_iff_eq_none]
  intro hasked
  exact absurd (hrunning.symm.trans (h.loading hasked)) Bool.false_ne_true

theorem consistent_new (random : Random) : Consistent (new random) where
  cursor _ := rfl
  trap h := nomatch h
  loading h := nomatch h
  depth := rfl
  size := Nat.zero_le _

theorem Consistent.tidy (h : Consistent session) (htidy : Tidy session after)
    (hcursor : after.isRunning = false → after.cursor = none)
    (htrap : after.state = .trapped → after.settings.resume.isSome ∧ after.settings.onError.isSome)
    (hloading : after.loading.isSome → after.isRunning = true) : Consistent after where
  cursor := hcursor
  trap := htrap
  loading := hloading
  depth := htidy.depth.trans h.depth
  size := htidy.size h.size

/-- A session that has halted is consistent where no file is asked for. -/
theorem Consistent.halted (h : Consistent session) (htidy : Tidy session after)
    (hloading : session.loading = none) (hstate : after.isRunning = false)
    (hcursor : after.cursor = none) : Consistent after := by
  refine h.tidy htidy (fun _ => hcursor) (fun htrapped => ?_) (fun hsome => ?_)
  · rw [isRunning, htrapped] at hstate
    cases hstate
  · rw [htidy.loading, hloading] at hsome
    cases hsome

theorem Consistent.running (h : Consistent session) (htidy : Tidy session after)
    (hstate : after.state = .running) : Consistent after := by
  have hrunning : after.isRunning = true := by
    rw [isRunning, hstate]
    rfl
  refine h.tidy htidy (fun hfalse => ?_) (fun htrapped => ?_) (fun _ => hrunning)
  · rw [hrunning] at hfalse
    cases hfalse
  · rw [hstate] at htrapped
    cases htrapped

theorem Consistent.raise (h : Consistent session) (hloading : session.loading = none)
    (fault : Fault) : Consistent (session.raise fault) := by
  cases hhandler : session.handler? with
  | none =>
      have hstopped := stoppedWith_raise fault hhandler
      refine h.halted (tidy_raise session fault) hloading ?_ hstopped.cursor
      rw [isRunning, hstopped.state]
      rfl
  | some handler =>
      have honError := onError_of_handler? hhandler
      refine h.tidy (tidy_raise session fault) ?_ ?_ ?_ <;> rw [raise_of_handler? hhandler]
      · intro hfalse
        cases hfalse
      · exact fun _ => ⟨rfl, honError⟩
      · exact fun _ => rfl

theorem Consistent.steady (h : Consistent session) (hsteady : Steady session after)
    (hrunning : session.isRunning = true) : Consistent after := by
  have hafter : after.isRunning = true := hsteady.isRunning.trans hrunning
  refine h.tidy hsteady.toTidy (fun hfalse => ?_) (fun htrapped => ?_) (fun _ => hafter)
  · rw [hafter] at hfalse
    cases hfalse
  · rw [hsteady.resume, hsteady.onError]
    exact h.trap (hsteady.state ▸ htrapped)

/-- Whatever a statement does, a running session stays consistent, also where a fault is handled. -/
theorem Consistent.effect (h : Consistent session) (hrunning : session.isRunning = true)
    (hloading : session.loading = none) {next : Option Statement}
    {outcome : Except Fault Unit × Session} (heffect : Effect next session outcome) :
    Consistent (settle outcome) := by
  cases heffect with
  | ordinary hchanges =>
      have hsteady := hchanges.steady
      rcases outcome with ⟨fault | value, after⟩
      · exact (h.steady hsteady hrunning).raise (hsteady.loading.trans hloading) fault
      · exact h.steady hsteady hrunning
  | loads hchanges request =>
      have hafter := h.steady hchanges.steady hrunning
      refine ⟨hafter.cursor, hafter.trap, fun _ => ?_, hafter.depth, hafter.size⟩
      exact hchanges.steady.isRunning.trans hrunning
  | traps line hline =>
      refine ⟨h.cursor, fun htrapped => ⟨(h.trap htrapped).1, ?_⟩, h.loading, h.depth, h.size⟩
      cases line with
      | none => exact absurd htrapped (hline rfl)
      | some number => rfl
  | halts htidy hstate hcursor => exact h.halted htidy hloading hstate hcursor
  | runs htidy hstate => exact h.running htidy hstate
  | rethrows hstate =>
      have hdropped : Consistent session.dropHandler := h.running ⟨rfl, rfl, id⟩ rfl
      exact hdropped.raise hloading _
  | strays hnext hstate =>
      have hleft : Consistent session.leaveHandler := h.running ⟨rfl, rfl, id⟩ rfl
      exact hleft.raise hloading _

theorem Consistent.stepOrRaise (h : Consistent session) (hrunning : session.isRunning = true)
    (hloading : session.loading = none) : Consistent session.stepOrRaise := by
  have hself : Consistent { session with current := session.begun.current } :=
    ⟨h.cursor, h.trap, h.loading, h.depth, h.size⟩
  have hbegun := steady_begun session
  rw [stepOrRaise_eq]
  exact (hself.steady hbegun hrunning).effect (hbegun.isRunning.trans hrunning)
    (hbegun.loading.trans hloading) (effect_step hrunning)

theorem Consistent.interrupt (h : Consistent session) : Consistent session.interrupt := by
  have hquiet : Consistent
      { session with
        settings := { session.settings with auto := none }
        loading := none
        waiting := [] } :=
    ⟨h.cursor, h.trap, fun hsome => (nomatch hsome), h.depth, h.size⟩
  unfold Session.interrupt
  dsimp only
  split
  · exact hquiet.halted (tidy_breakOff _) rfl (isRunning_breakOff _) (cursor_breakOff _)
  · exact hquiet

theorem Consistent.startDirect (h : Consistent session) (line : Line) :
    Consistent (session.startDirect line) :=
  h.running ⟨rfl, rfl, id⟩ rfl

theorem Consistent.enter (h : Consistent session) (text : String) :
    Consistent (session.enter text).2 := by
  have hentries := entries_enter session text
  generalize (session.enter text).2 = after at hentries
  induction hentries with
  | refl => exact h
  | tail _ hentry ih =>
      cases hentry with
      | start line _ => exact ih.startDirect line
      | auto | wait | store | report => exact ⟨ih.cursor, ih.trap, ih.loading, ih.depth, ih.size⟩

theorem Consistent.loadProgram (h : Consistent session) (hloading : session.loading = none)
    (program : Program) (andRun : Bool) : Consistent (session.loadProgram program andRun) := by
  cases andRun with
  | true => exact h.running ⟨rfl, rfl, fun _ => Nat.zero_le _⟩ rfl
  | false => exact h.halted ⟨rfl, rfl, fun _ => Nat.zero_le _⟩ hloading rfl rfl

theorem Consistent.mergeProgram (h : Consistent session) (hloading : session.loading = none)
    (program : Program) : Consistent (session.mergeProgram program) := by
  unfold Session.mergeProgram
  split
  · exact h.raise hloading _
  · exact h.halted ⟨rfl, rfl, id⟩ hloading rfl rfl

theorem Consistent.chainProgram (h : Consistent session) (hloading : session.loading = none)
    (program : Program) (line : Option Nat) (all : Bool) :
    Consistent (session.chainProgram program line all) := by
  unfold Session.chainProgram
  dsimp only
  split
  · exact h.running ⟨rfl, rfl, fun _ => Nat.zero_le _⟩ rfl
  · split
    · exact h.running ⟨rfl, rfl, fun _ => Nat.zero_le _⟩ rfl
    · refine Consistent.raise ?_ ?_ _
      · exact h.running ⟨rfl, rfl, fun _ => Nat.zero_le _⟩ rfl
      · exact hloading

/-- A program that comes in is taken in as the request for it says. -/
theorem Consistent.takeIn (h : Consistent session) (hloading : session.loading = none)
    (program : Program) (kind : LoadKind) :
    Consistent (match kind with
      | .load andRun => session.loadProgram program andRun
      | .merge => session.mergeProgram program
      | .chain line all => session.chainProgram program line all) := by
  cases kind with
  | load andRun => exact h.loadProgram hloading program andRun
  | merge => exact h.mergeProgram hloading program
  | chain line all => exact h.chainProgram hloading program line all

theorem Consistent.completeLoad (h : Consistent session) (answer : Except Fault (List UInt8)) :
    Consistent (session.completeLoad answer) := by
  have hwaited : Consistent { session with loading := none } :=
    ⟨h.cursor, h.trap, fun hsome => (nomatch hsome), h.depth, h.size⟩
  unfold Session.completeLoad
  split
  · exact h
  · rename_i request _
    dsimp only
    cases answer with
    | error fault => exact hwaited.raise rfl fault
    | ok bytes =>
        refine Consistent.takeIn ?_ ?_ (Program.ofBytes bytes).1 request.kind
        · split
          · exact hwaited
          · exact ⟨h.cursor, h.trap, hwaited.loading, h.depth, h.size⟩
        · split <;> rfl

theorem Consistent.move (h : Consistent session) (hmove : Move session after) :
    Consistent after := by
  cases hmove with
  | step _ hloading hrunning _ => exact h.stepOrRaise hrunning hloading
  | obey =>
      refine Consistent.interrupt ?_
      exact ⟨h.cursor, h.trap, h.loading, h.depth, h.size⟩
  | start =>
      refine Consistent.startDirect ?_ _
      exact ⟨h.cursor, h.trap, h.loading, h.depth, h.size⟩
  | report | sendKey | sendBreak => exact ⟨h.cursor, h.trap, h.loading, h.depth, h.size⟩
  | enter text => exact h.enter text
  | interrupt => exact h.interrupt
  | completeLoad answer => exact h.completeLoad answer

/-- The sessions that come about from a new one by what a host does, at every point between two
statements, whatever its random numbers are. -/
inductive Reachable : Session → Prop
  | new (random : Random) : Reachable (Session.new random)
  | move {session after : Session} (h : Reachable session) (hmove : Move session after) : Reachable after

theorem Reachable.trans (h : Reachable session) (hmoves : Relation.ReflTransGen Move session after) :
    Reachable after := by
  induction hmoves with
  | refl => exact h
  | tail _ hmove ih => exact ih.move hmove

theorem Reachable.exists_moves (h : Reachable session) :
    ∃ random, Relation.ReflTransGen Move (Session.new random) session := by
  induction h with
  | new random => exact ⟨random, .refl⟩
  | move _ hmove ih =>
      obtain ⟨random, hmoves⟩ := ih
      exact ⟨random, hmoves.tail hmove⟩

theorem Reachable.consistent (h : Reachable session) : Consistent session := by
  induction h with
  | new random => exact consistent_new random
  | move _ hmove ih => exact ih.move hmove

end Session

/-- What a host can do with a session. -/
inductive Call where
  | enter (text : String)
  | execute (cycles : Nat)
  | interrupt
  | sendKey (stroke : List UInt8)
  | sendBreak
  | completeLoad (answer : Except Fault (List UInt8))

namespace Session

def call (session : Session) : Call → Session
  | .enter text => (session.enter text).2
  | .execute cycles => (execute cycles session).2
  | .interrupt => session.interrupt
  | .sendKey stroke => session.sendKey stroke
  | .sendBreak => session.sendBreak
  | .completeLoad answer => session.completeLoad answer

/-- The session after a host's calls, from the start. -/
def afterCalls (calls : List Call) : Session := calls.foldl call {}

/-- A call, with its text taken in by the characters. -/
def evaluate (session : Session) : Call → Session
  | .enter text => (session.enterCharacters (Text.characters text)).2
  | c => session.call c

theorem call_eq_evaluate : call = evaluate := by
  funext session c
  cases c with
  | enter text => exact congrArg Prod.snd (enter_eq session text)
  | execute | interrupt | sendKey | sendBreak | completeLoad => rfl

/-- Fixed sessions are evaluated in this form. -/
theorem afterCalls_eq (calls : List Call) : afterCalls calls = calls.foldl evaluate {} := by
  rw [afterCalls, call_eq_evaluate]

theorem moves_call (session : Session) (c : Call) :
    Relation.ReflTransGen Move session (session.call c) := by
  cases c with
  | enter text => exact .single (.enter session text)
  | execute cycles => exact moves_execute cycles session
  | interrupt => exact .single (.interrupt session)
  | sendKey stroke => exact .single (.sendKey session stroke)
  | sendBreak => exact .single (.sendBreak session)
  | completeLoad answer => exact .single (.completeLoad session answer)

theorem Reachable.calls (h : session.Reachable) (calls : List Call) : (calls.foldl call session).Reachable := by
  induction calls generalizing session with
  | nil => exact h
  | cons c rest ih => exact ih (h.trans (moves_call session c))

theorem reachable_afterCalls (calls : List Call) : (afterCalls calls).Reachable :=
  (Reachable.new {}).calls calls

/-- **The parts of a session agree with one another.** Whatever a host does, and at every point
between two statements: without a run there is no next statement; in an error handler the handler and
the place to return to are known; a file is asked for only during a run; no call of a function is
open; and the stack is within its limit. -/
theorem reachable_parts_agree :
    (∀ random calls, (List.foldl call (new random) calls).Reachable) ∧
    ∀ session : Session, session.Reachable →
      (session.state = .idle ∨ session.state = .stopped → session.cursor = none) ∧
      (session.state = .trapped →
        session.settings.resume.isSome ∧ session.settings.onError.isSome) ∧
      (session.loading.isSome → session.state = .running ∨ session.state = .trapped) ∧
      session.work.depth = 0 ∧ session.stack.toList.length ≤ 65535 := by
  refine ⟨fun random calls => (Reachable.new random).calls calls, fun session hreachable => ?_⟩
  have h := hreachable.consistent
  refine ⟨fun hhalted => h.cursor ?_, h.trap, fun hsome => ?_, h.depth, ?_⟩
  · unfold isRunning
    rcases hhalted with hstate | hstate <;> rw [hstate] <;> rfl
  · have hrunning := h.loading hsome
    rwa [isRunning, Bool.or_eq_true, decide_eq_true_eq, decide_eq_true_eq] at hrunning
  · rw [← Stack.size_eq_length_toList]
    exact h.size

/-- An error handler at its RESUME, which names a line that is missing. -/
def atLostResume : Session :=
  afterCalls [.enter "10 ON ERROR GOTO 100", .enter "20 ERROR 5", .enter "100 RESUME 9999",
    .enter "RUN", .execute 3]

theorem reachable_parts_agree_atLostResume :
    atLostResume.state = .trapped ∧ atLostResume.settings.resume.isSome ∧
      atLostResume.settings.onError.isSome ∧ atLostResume.work.depth = 0 := by
  have hreachable : atLostResume.Reachable := reachable_parts_agree.1 {} _
  have hstate : atLostResume.state = .trapped := by
    rw [atLostResume, afterCalls_eq]
    decide +kernel
  obtain ⟨-, htrap, -, hdepth, -⟩ := reachable_parts_agree.2 atLostResume hreachable
  exact ⟨hstate, (htrap hstate).1, (htrap hstate).2, hdepth⟩

end Session

end LineBasic
