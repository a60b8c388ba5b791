import LineBasic.Proofs.Budget
import LineBasic.Proofs.Continue
import LineBasic.Proofs.DataOrder
import LineBasic.Proofs.Structured
import LineBasic.Proofs.Twins
import LineBasic.Proofs.Waiting

/-! Runs of two spellings of one program. RUN clears what earlier runs have left, so that from its first
statement on the two sessions are twins. They stay twins statement by statement, also in a program that is
loaded or chained to, until a program is merged into the one that runs, which ends the run. What a host hears
in between is the same in both, apart from listings. -/

namespace LineBasic

namespace Session

open Act SessionAct

variable {listed : String → String → Prop} {p q : Program} {session other : Session}

section Steps

/-- Nothing is left to be carried out in both sessions, or two spellings of one statement are. -/
theorem Twin.next_cases (h : p.bare = q.bare) (htwin : Twin listed p q session other) :
    (session.nextStatement? = none ∧ other.nextStatement? = none) ∨
      ∃ cursor s found, session.cursor = some cursor ∧ other.cursor = some cursor ∧
        p.statement? cursor = some s ∧ q.statement? cursor = some found ∧
        session.nextStatement? = some s ∧ other.nextStatement? = some found := by
  obtain ⟨base, -, -, -⟩ := htwin
  unfold nextStatement?
  dsimp only
  cases hcursor : base.cursor with
  | none => exact .inl ⟨rfl, rfl⟩
  | some cursor =>
      rw [Option.bind_some, Option.bind_some]
      have hboth := Program.statement?_of_bare h cursor
      cases hs : p.statement? cursor with
      | none =>
          rw [hs, Option.map_none, eq_comm, Option.map_eq_none_iff] at hboth
          exact .inl ⟨rfl, hboth⟩
      | some s =>
          rw [hs, Option.map_some, eq_comm, Option.map_eq_some_iff] at hboth
          obtain ⟨found, hfound, -⟩ := hboth
          exact .inr ⟨cursor, s, found, rfl, rfl, hs, hfound, rfl, hfound⟩

theorem Twin.goOn (htwin : Twin listed p q session other) (cursor : Option Cursor) :
    Twin listed p q { session with cursor } { other with cursor } :=
  htwin.change (fun session => { session with cursor }) fun _ _ _ _ _ => rfl

theorem Twin.beginStatement (h : p.bare = q.bare) (htwin : Twin listed p q session other) (cursor : Cursor) :
    Twin listed p q (SessionAct.beginStatement session cursor) (SessionAct.beginStatement other cursor) := by
  have htrace : traceText other cursor = traceText session cursor :=
    htwin.reads (traceText · cursor) fun _ _ _ _ _ => rfl
  have hadvance : other.program.advance? cursor = session.program.advance? cursor := by
    obtain ⟨base, -, -, -⟩ := htwin
    exact Program.advance?_of_bare h cursor
  have hplaced : ∀ (next : Option Cursor) (shown otherShown : Session), Twin listed p q shown otherShown →
      Twin listed p q { shown with traced := cursor.line, cursor := next, current := cursor }
        { otherShown with traced := cursor.line, cursor := next, current := cursor } :=
    fun next _ _ hshown =>
      hshown.change (fun shown => { shown with traced := cursor.line, cursor := next, current := cursor })
        fun _ _ _ _ _ => rfl
  unfold SessionAct.beginStatement
  rw [htrace, hadvance]
  cases traceText session cursor with
  | none => exact hplaced _ _ _ htwin
  | some text => exact hplaced _ _ _ (htwin.print (.inl rfl) fun _ => rfl)

theorem Twin.begun (h : p.bare = q.bare) (htwin : Twin listed p q session other) :
    Twin listed p q session.begun other.begun := by
  obtain ⟨hnone, hother⟩ | ⟨cursor, s, found, hcursor, hothers, -, -, hnext, hfound⟩ := htwin.next_cases h
  · rw [begun_of_none hnone, begun_of_none hother]
    exact htwin.goOn none
  · rw [begun_of_some hcursor hnext, begun_of_some hothers hfound]
    exact (htwin.goOn none).beginStatement h cursor

/-- A fault goes to the same error handler, or ends both runs. -/
theorem Twin.raise (h : p.bare = q.bare) (htwin : Twin listed p q session other) (fault : Fault) :
    Twin listed p q (session.raise fault) (other.raise fault) := by
  have hhandler : other.handler? = session.handler? := by
    obtain ⟨base, -, -, -⟩ := htwin
    unfold handler?
    dsimp only
    simp only [Program.start_of_bare h]
  have hlocated : other.located fault = session.located fault := htwin.reads (·.located fault) fun _ _ _ _ _ => rfl
  have htold : ∀ halted otherHalted : Session, Twin listed p q halted otherHalted →
      Twin listed p q (if halted.column > 0 then halted.print "\n" else halted)
        (if otherHalted.column > 0 then otherHalted.print "\n" else otherHalted) := by
    intro halted otherHalted hhalted
    rw [hhalted.reads column fun _ _ _ _ _ => rfl]
    split
    · exact hhalted.print (.inl rfl) fun _ => rfl
    · exact hhalted
  unfold Session.raise
  rw [hhandler, hlocated]
  generalize session.located fault = error
  cases session.handler? with
  | some handler =>
      exact htwin.change (fun session =>
        { session with
          settings := { session.settings with
            faultCode := error.code
            faultLine := error.line
            resume := some session.current }
          cursor := some handler
          state := .trapped }) fun _ _ _ _ _ => rfl
  | none =>
      refine (htold _ _ ?_).report _
      exact htwin.change (fun session =>
        { session with
          settings := { session.settings with
            faultCode := error.code
            faultLine := error.line
            restart := none } }.halt .stopped) fun _ _ _ _ _ => rfl

theorem settle_twins (h : p.bare = q.bare) {outcome found : Except Fault Unit × Session}
    (houtcome : Paired (Twin listed p q) Eq outcome found) :
    Twin listed p q (Session.settle outcome) (Session.settle found) := by
  cases houtcome with
  | error fault htwin => exact htwin.raise h fault
  | ok _ htwin => exact htwin

theorem Twin.interrupt (htwin : Twin listed p q session other) (hrunning : session.isRunning = true) :
    Twin listed p q session.interrupt other.interrupt := by
  have hother : other.isRunning = true := (htwin.reads isRunning fun _ _ _ _ _ => rfl).trans hrunning
  have hquiet : Twin listed p q session.quiet other.quiet := htwin.change quiet fun _ _ _ _ _ => rfl
  rw [interrupt_of_isRunning hrunning, interrupt_of_isRunning hother]
  exact hquiet.breakOff

/-- Both sessions forget their programs. -/
theorem Twin.newProgram (htwin : Twin listed p q session other) :
    Twin listed .empty .empty (newProgram.outcome session).2 (newProgram.outcome other).2 := by
  obtain ⟨base, -, hstack, hevents⟩ := htwin
  exact .intro ({ base.clear with settings := {} }.halt .idle) (fun _ => rfl) (hstack.clear _ _) hevents

theorem same_endOfProgram : Same (Twin listed p q) endOfProgram := by
  refine agrees_get ?_
  rintro _ _ ⟨base, hfunctions, hstack, hevents⟩
  dsimp only
  split
  · exact agrees_throw _
  · exact agrees_set (.intro (base.halt .idle) hfunctions hstack hevents)

/-- Sessions that carry out two spellings of one program. -/
def Going (listed : String → String → Prop) (session other : Session) : Prop :=
  ∃ p q, Program.Twins listed p q ∧ Twin listed p q session other

/-- **Twins stay twins** when each of them carries out its next statement. -/
theorem Twin.stepOrRaise (htwins : Program.Twins listed p q) (htwin : Twin listed p q session other) :
    Going listed session.stepOrRaise other.stepOrRaise := by
  have hbegun := htwin.begun htwins.bare
  rw [stepOrRaise_eq, stepOrRaise_eq]
  obtain ⟨hnone, hother⟩ | ⟨cursor, s, found, -, -, hs, hfound, hnext, hothers⟩ := htwin.next_cases htwins.bare
  · rw [outcome_step_of_none hnone, outcome_step_of_none hother]
    exact ⟨p, q, htwins, settle_twins htwins.bare (same_endOfProgram (htwin.goOn none))⟩
  · rw [outcome_step hnext, outcome_step hothers]
    by_cases hnew : s = .command .new
    · -- Both programs are empty now, so that there is nothing left in which they differ.
      have hbare := Program.statement?_of_bare htwins.bare cursor
      rw [hs, hfound, hnew, Option.map_some, Option.map_some] at hbare
      have hbare := (Option.some.inj hbare).symm
      rw [Statement.bare] at hbare
      rw [hnew, Statement.eq_new_of_bare hbare]
      exact ⟨.empty, .empty, Program.twins_self listed .empty, hbegun.newProgram⟩
    · exact ⟨p, q, htwins, settle_twins htwins.bare (agrees_statement htwins hs hfound hnew hbegun)⟩

end Steps

section Loads

/-- Sessions at rest that have the same to tell. -/
structure Over (listed : String → String → Prop) (session other : Session) : Prop where
  atRest : session.AtRest
  otherAtRest : other.AtRest
  events : List.Forall₂ (Event.Agree listed) session.events other.events

theorem Twin.loadProgram (htwin : Twin listed p q session other) (program : Program) (andRun : Bool) :
    Going listed (session.loadProgram program andRun) (other.loadProgram program andRun) := by
  refine ⟨program, program, Program.twins_self listed program, ?_⟩
  obtain ⟨base, -, hstack, hevents⟩ := htwin
  cases andRun with
  | true =>
      exact .intro { base.clear with cursor := program.firstCursor?, state := .running } (fun _ => rfl)
        (hstack.clear _ _) hevents
  | false => exact .intro (base.clear.halt .idle) (fun _ => rfl) (hstack.clear _ _) hevents

theorem Twin.mergeProgram (htwins : Program.Twins listed p q) (htwin : Twin listed p q session other)
    (hloading : session.loading = none) (hwaiting : session.waiting = []) (program : Program) :
    Going listed (session.mergeProgram program) (other.mergeProgram program) ∨
      Over listed (session.mergeProgram program) (other.mergeProgram program) := by
  unfold Session.mergeProgram
  split
  · exact .inl ⟨p, q, htwins, htwin.raise htwins.bare _⟩
  · obtain ⟨base, -, -, hevents⟩ := htwin
    exact .inr ⟨⟨rfl, hloading, hwaiting⟩, ⟨rfl, hloading, hwaiting⟩, hevents⟩

/-- The session once it has left its program for another one. -/
def chainedTo (session : Session) (program : Program) (memory : Memory) : Session :=
  { session with
    program
    work := { session.work with memory }
    functions := ∅
    stack := session.stack.clear
    data := none
    dataPosition := 0
    settings := { session.settings.clearTrap with restart := none }
    state := .running }

theorem chainProgram_eq (session : Session) (program : Program) (line : Option Nat) (all : Bool) :
    session.chainProgram program line all =
      let memory := session.work.memory
      let chained := session.chainedTo program (if all then memory else memory.retain session.program.common)
      match line with
      | none => { chained with cursor := program.firstCursor? }
      | some number =>
          match program.start number with
          | .ok cursor => { chained with cursor := some cursor }
          | .error fault => chained.raise fault := rfl

/-- CHAIN keeps the same variables, and nothing else that is spelled. -/
theorem Twin.chainProgram (htwins : Program.Twins listed p q) (htwin : Twin listed p q session other)
    (program : Program) (line : Option Nat) (all : Bool) :
    Going listed (session.chainProgram program line all) (other.chainProgram program line all) := by
  have hchained : ∀ memory, Twin listed program program (session.chainedTo program memory)
      (other.chainedTo program memory) := by
    intro memory
    obtain ⟨base, -, hstack, hevents⟩ := htwin
    exact .intro (base.chainedTo program memory) (fun _ => rfl) (hstack.clear _ _) hevents
  have hmemory : (if all then other.work.memory else other.work.memory.retain other.program.common) =
      if all then session.work.memory else session.work.memory.retain session.program.common := by
    obtain ⟨base, -, -, -⟩ := htwin
    dsimp only
    rw [Program.retain_of_bare htwins.bare]
  refine ⟨program, program, Program.twins_self listed program, ?_⟩
  rw [chainProgram_eq, chainProgram_eq]
  dsimp only
  rw [hmemory]
  cases line with
  | none => exact (hchained _).goOn _
  | some number =>
      dsimp only
      cases program.start number with
      | ok cursor => exact (hchained _).goOn _
      | error fault => exact (hchained _).raise rfl fault

theorem Twin.takeIn (htwins : Program.Twins listed p q) (htwin : Twin listed p q session other)
    (hloading : session.loading = none) (hwaiting : session.waiting = []) (program : Program) (kind : LoadKind) :
    let taken (session : Session) : Session :=
      match kind with
      | .load andRun => session.loadProgram program andRun
      | .merge => session.mergeProgram program
      | .chain line all => session.chainProgram program line all
    Going listed (taken session) (taken other) ∨ Over listed (taken session) (taken other) := by
  cases kind with
  | load andRun => exact .inl (htwin.loadProgram program andRun)
  | merge => exact htwin.mergeProgram htwins hloading hwaiting program
  | chain line all => exact .inl (htwin.chainProgram htwins program line all)

/-- A file that both sessions have asked for is taken in by both. -/
theorem Twin.completeLoad (htwins : Program.Twins listed p q) (htwin : Twin listed p q session other)
    (hwaiting : session.waiting = []) (answer : Except Fault (List UInt8)) :
    Going listed (session.completeLoad answer) (other.completeLoad answer) ∨
      Over listed (session.completeLoad answer) (other.completeLoad answer) := by
  have hwaited : Twin listed p q { session with loading := none } { other with loading := none } :=
    htwin.change (fun session => { session with loading := none }) fun _ _ _ _ _ => rfl
  unfold Session.completeLoad
  rw [htwin.reads loading fun _ _ _ _ _ => rfl]
  cases session.loading with
  | none => exact .inl ⟨p, q, htwins, htwin⟩
  | some request =>
      cases answer with
      | error fault => exact .inl ⟨p, q, htwins, hwaited.raise htwins.bare fault⟩
      | ok bytes =>
          dsimp only
          cases (Program.ofBytes bytes).2.isEmpty with
          | true => exact hwaited.takeIn htwins rfl hwaiting _ request.kind
          | false => exact (hwaited.report _).takeIn htwins rfl hwaiting _ request.kind

end Loads

section Runs

/-- How far two sessions with two spellings of one program have come since RUN was typed in. Before its first
statement they still have the loops that an earlier run has left open, and these need not be loops of either
program. -/
inductive Together (listed : String → String → Prop) (p q : Program) : Session → Session → Prop
  | starting (base : Session) (hloading : base.loading = none) (hwaiting : base.waiting = []) :
      Together listed p q ({ base with program := p }.startDirect runLine)
        ({ base with program := q }.startDirect runLine)
  | going {session other : Session} (h : Going listed session other) (hwaiting : session.waiting = []) :
      Together listed p q session other
  | ended {session other : Session} (h : Over listed session other) : Together listed p q session other

theorem Together.of_or (h : Going listed session other ∨ Over listed session other)
    (hwaiting : session.waiting = []) : Together listed p q session other :=
  h.elim (.going · hwaiting) .ended

theorem Together.events (h : Together listed p q session other) :
    List.Forall₂ (Event.Agree listed) session.events other.events := by
  cases h with
  | starting base _ _ => exact List.forall₂_same.mpr fun event _ => .same event
  | going hgoing _ =>
      obtain ⟨_, _, _, base, _, _, hevents⟩ := hgoing
      exact hevents
  | ended hover => exact hover.events

theorem Together.isRunning (h : Together listed p q session other) : other.isRunning = session.isRunning := by
  cases h with
  | starting base _ _ => rfl
  | going hgoing _ =>
      obtain ⟨_, _, -, htwin⟩ := hgoing
      exact htwin.reads Session.isRunning fun _ _ _ _ _ => rfl
  | ended hover => rw [hover.otherAtRest.isRunning, hover.atRest.isRunning]

theorem Together.loading (h : Together listed p q session other) : other.loading = session.loading := by
  cases h with
  | starting base _ _ => rfl
  | going hgoing _ =>
      obtain ⟨_, _, -, htwin⟩ := hgoing
      exact htwin.reads Session.loading fun _ _ _ _ _ => rfl
  | ended hover => rw [hover.otherAtRest.loading, hover.atRest.loading]

theorem Together.waiting (h : Together listed p q session other) : session.waiting = [] ∧ other.waiting = [] := by
  cases h with
  | starting base _ hwaiting => exact ⟨hwaiting, hwaiting⟩
  | going hgoing hwaiting =>
      obtain ⟨_, _, -, htwin⟩ := hgoing
      exact ⟨hwaiting, (htwin.reads Session.waiting fun _ _ _ _ _ => rfl).trans hwaiting⟩
  | ended hover => exact ⟨hover.atRest.waiting, hover.otherAtRest.waiting⟩

theorem Together.events_cases (h : Together listed p q session other) :
    (session.events = [] ∧ other.events = []) ∨
      ∃ event rest found others, session.events = event :: rest ∧ other.events = found :: others := by
  have hevents := h.events
  generalize session.events = events at hevents ⊢
  generalize other.events = reported at hevents ⊢
  cases hevents with
  | nil => exact .inl ⟨rfl, rfl⟩
  | cons _ _ => exact .inr ⟨_, _, _, _, rfl, rfl⟩

/-- The host takes the next event of each session. -/
theorem Together.pop (h : Together listed p q session other) {event found : Event} {rest others : List Event}
    (hsession : session.events = event :: rest) (hother : other.events = found :: others) :
    Event.Agree listed event found ∧
      Together listed p q { session with events := rest } { other with events := others } := by
  have hevents := h.events
  rw [hsession, hother] at hevents
  cases hevents with
  | cons hfirst hrest =>
      refine ⟨hfirst, ?_⟩
      cases h with
      | starting base hloading hwaiting =>
          have hsame : others = rest := (List.cons.inj (hother.symm.trans hsession)).2
          rw [hsame]
          exact .starting { base with events := rest } hloading hwaiting
      | going hgoing hwaiting =>
          obtain ⟨p', q', htwins, base, hfunctions, hstack, -⟩ := hgoing
          exact .going ⟨p', q', htwins, .intro base hfunctions hstack hrest⟩ hwaiting
      | ended hover =>
          exact .ended
            { atRest := ⟨hover.atRest.isRunning, hover.atRest.loading, hover.atRest.waiting⟩
              otherAtRest := ⟨hover.otherAtRest.isRunning, hover.otherAtRest.loading, hover.otherAtRest.waiting⟩
              events := hrest }

/-- What a running session does in a turn: it obeys a break, or it carries out a statement. -/
def carriedOn (session : Session) : Session :=
  if session.keys.breakSeen then { session with keys := session.keys.clearBreak }.interrupt else session.stepOrRaise

/-- The next turn of a session in which no event, file or line waits. -/
theorem turn?_of_calm (hevents : session.events = []) (hloading : session.loading = none)
    (hwaiting : session.waiting = []) :
    session.turn? = if session.isRunning then some session.carriedOn else none := by
  unfold turn? carriedOn
  rw [hevents, hloading, hwaiting]
  cases session.isRunning with
  | false => rfl
  | true => cases session.keys.breakSeen <;> rfl

/-- RUN clears the session and goes to the first line. -/
theorem stepOrRaise_run (session : Session) :
    (session.startDirect runLine).stepOrRaise =
      (session.startDirect runLine).clear.place (session.program.insert runLine).firstCursor? (.start none)
        none := rfl

/-- From its first statement on a run is one of twins. -/
theorem going_run (htwins : Program.Twins listed (p.insert runLine) (q.insert runLine)) (base : Session) :
    Going listed ({ base with program := p }.startDirect runLine).stepOrRaise
      ({ base with program := q }.startDirect runLine).stepOrRaise := by
  have hcleared : Frame.AllAlike (p.insert runLine) (q.insert runLine) base.stack.clear base.stack.clear :=
    ⟨rfl, .nil⟩
  rw [stepOrRaise_run, stepOrRaise_run]
  dsimp only
  rw [Program.firstCursor?_of_bare htwins.bare]
  exact ⟨_, _, htwins, .intro
    ((base.startDirect runLine).clear.place (p.insert runLine).firstCursor? (.start none) none) (fun _ => rfl)
    hcleared (List.forall₂_same.mpr fun event _ => .same event)⟩

theorem events_breakOff (session : Session) (program : Program) :
    { session with program }.breakOff.events = session.breakOff.events := by
  unfold breakOff
  dsimp only
  split <;> rfl

/-- A break before the first statement ends the runs. -/
theorem over_interrupt (base : Session) :
    Over listed ({ base with program := p }.startDirect runLine).interrupt
      ({ base with program := q }.startDirect runLine).interrupt where
  atRest := atRest_interrupt rfl
  otherAtRest := atRest_interrupt rfl
  events := by
    have hevents : ∀ program : Program, ({ base with program }.startDirect runLine).interrupt.events =
        (base.startDirect runLine).quiet.breakOff.events := by
      intro program
      rw [interrupt_of_isRunning rfl]
      exact events_breakOff (base.startDirect runLine).quiet (program.insert runLine)
    rw [hevents p, hevents q]
    exact List.forall₂_same.mpr fun event _ => .same event

theorem Together.carryOn (htwins : Program.Twins listed (p.insert runLine) (q.insert runLine))
    (h : Together listed p q session other) (hrunning : session.isRunning = true) :
    Together listed p q session.carriedOn other.carriedOn := by
  unfold carriedOn
  cases h with
  | starting base hloading hwaiting =>
      change Together listed p q (if base.keys.breakSeen then _ else _) (if base.keys.breakSeen then _ else _)
      split
      · exact .ended (over_interrupt { base with keys := base.keys.clearBreak })
      · exact .going (going_run htwins base) ((keepsQueue_stepOrRaise _).waiting.trans hwaiting)
  | going hgoing hwaiting =>
      obtain ⟨p', q', htwins', htwin⟩ := hgoing
      rw [htwin.reads keys fun _ _ _ _ _ => rfl]
      split
      · have hcleared : Twin listed p' q' { session with keys := session.keys.clearBreak }
            { other with keys := session.keys.clearBreak } :=
          htwin.change (fun twin => { twin with keys := session.keys.clearBreak }) fun _ _ _ _ _ => rfl
        exact .going ⟨p', q', htwins', hcleared.interrupt hrunning⟩ (AtRest.waiting (atRest_interrupt hrunning))
      · exact .going (htwin.stepOrRaise htwins') ((keepsQueue_stepOrRaise session).waiting.trans hwaiting)
  | ended hover =>
      rw [hover.atRest.isRunning] at hrunning
      cases hrunning

/-- **A turn keeps two sessions together**, and both take it or none does. -/
theorem Together.turn (htwins : Program.Twins listed (p.insert runLine) (q.insert runLine))
    (h : Together listed p q session other) : Option.Rel (Together listed p q) session.turn? other.turn? := by
  obtain ⟨hnone, hother⟩ | ⟨event, rest, found, others, hsome, hother⟩ := h.events_cases
  · obtain ⟨hwaiting, hotherWaiting⟩ := h.waiting
    cases hloading : session.loading with
    | some request =>
        rw [turn?_of_loading hloading, turn?_of_loading (h.loading.trans hloading)]
        exact .none
    | none =>
        rw [turn?_of_calm hnone hloading hwaiting, turn?_of_calm hother (h.loading.trans hloading) hotherWaiting,
          h.isRunning]
        cases hrunning : session.isRunning with
        | false => exact .none
        | true => exact .some (h.carryOn htwins hrunning)
  · rw [turn?_of_events hsome, turn?_of_events hother]
    exact .none

theorem Together.immediate (h : Together listed p q session other) :
    Event.Agree listed session.immediate.1 other.immediate.1 ∧
      Together listed p q session.immediate.2 other.immediate.2 := by
  unfold Session.immediate
  obtain ⟨hnone, hother⟩ | ⟨event, rest, found, others, hsome, hother⟩ := h.events_cases
  · rw [hnone, hother, h.loading]
    cases session.loading with
    | some request => exact ⟨.same _, h⟩
    | none => exact ⟨.same _, h⟩
  · rw [hsome, hother]
    exact h.pop hsome hother

/-- **A call keeps two sessions together**, and they tell what agrees. -/
theorem Together.execute (htwins : Program.Twins listed (p.insert runLine) (q.insert runLine))
    (h : Together listed p q session other) (cycles : Nat) :
    Event.Agree listed (Session.execute cycles session).1 (Session.execute cycles other).1 ∧
      Together listed p q (Session.execute cycles session).2 (Session.execute cycles other).2 := by
  induction cycles generalizing session other with
  | zero =>
      obtain ⟨hnone, hother⟩ | ⟨event, rest, found, others, hsome, hother⟩ := h.events_cases
      · rw [execute_zero_of_quiet hnone, execute_zero_of_quiet hother, h.isRunning, h.waiting.1, h.waiting.2]
        exact ⟨.same _, h⟩
      · rw [execute_of_events hsome, execute_of_events hother]
        exact h.pop hsome hother
  | succ cycles ih =>
      rw [execute_succ, execute_succ]
      have hturn := h.turn htwins
      generalize session.turn? = turned at hturn ⊢
      generalize other.turn? = otherTurned at hturn ⊢
      cases hturn with
      | none => exact h.immediate
      | some hnext => exact ih hnext

theorem Together.completeLoad (h : Together listed p q session other) (answer : Except Fault (List UInt8)) :
    Together listed p q (session.completeLoad answer) (other.completeLoad answer) := by
  have hunasked : session.loading = none →
      Together listed p q (session.completeLoad answer) (other.completeLoad answer) := by
    intro hloading
    unfold Session.completeLoad
    rw [h.loading, hloading]
    exact h
  cases h with
  | starting base hloading _ => exact hunasked hloading
  | going hgoing hwaiting =>
      obtain ⟨p', q', htwins, htwin⟩ := hgoing
      exact .of_or (htwin.completeLoad htwins hwaiting answer)
        ((keepsPlace_completeLoad session answer).waiting.trans hwaiting)
  | ended hover => exact hunasked hover.atRest.loading

variable (files : String → Except Fault (List UInt8))

/-- The host answers both sessions alike. -/
theorem Together.answer {told found : Event × Session} (hevent : Event.Agree listed told.1 found.1)
    (h : Together listed p q told.2 found.2) : Together listed p q (answered files told) (answered files found) := by
  obtain ⟨event, session⟩ := told
  obtain ⟨reported, other⟩ := found
  obtain rfl | ⟨text, otherText, rfl, rfl⟩ := hevent.isPrint
  · cases event with
    | load request => exact h.completeLoad _
    | _ => exact h
  · exact h

/-- What a host hears that makes calls with the given numbers of cycles and answers requests for files. -/
def heard : List Nat → Session → List Event
  | [], _ => []
  | cycles :: rest, session =>
      (Session.execute cycles session).1 :: heard rest (answered files (Session.execute cycles session))

theorem Together.heard (htwins : Program.Twins listed (p.insert runLine) (q.insert runLine))
    (h : Together listed p q session other) (budgets : List Nat) :
    List.Forall₂ (Event.Agree listed) (Session.heard files budgets session) (Session.heard files budgets other) := by
  induction budgets generalizing session other with
  | nil => exact .nil
  | cons cycles rest ih =>
      obtain ⟨hevent, hafter⟩ := h.execute htwins cycles
      exact .cons hevent (ih (hafter.answer files hevent))

end Runs

end Session

namespace Program

variable {p q : Program}

/-- What a LIST in a program shows of it, and what it would show of another one. -/
def Listings (p q : Program) (text other : String) : Prop :=
  ∃ cursor first last, p.statement? cursor = some (.command (.list first last)) ∧ p.list first last = .ok text ∧
    q.list first last = .ok other

section RunLine

variable {path : List Nat}

/-- The line that runs the program holds nothing else. -/
theorem statement?_runLine {s : Statement} (h : (p.insert Session.runLine).statement? ⟨none, path⟩ = some s) :
    s = .command (.run none) := by
  change statementAt? [.command (.run none)] path = some s at h
  match path with
  | [] => cases h
  | [0] => exact (Option.some.inj h).symm
  | [_ + 1] => cases h
  | 0 :: _ :: _ => cases h
  | (_ + 1) :: _ :: _ => cases h

theorem opened?_runLine (p : Program) (path : List Nat) : (p.insert Session.runLine).opened? ⟨none, path⟩ = none := by
  unfold opened?
  cases hs : (p.insert Session.runLine).statement? ⟨none, path⟩ with
  | none => rfl
  | some s => rw [statement?_runLine hs]

theorem named_runLine (p : Program) (path : List Nat) : (p.insert Session.runLine).named ⟨none, path⟩ = [] := by
  unfold named
  cases hs : (p.insert Session.runLine).statement? ⟨none, path⟩ with
  | none => rfl
  | some s => rw [statement?_runLine hs]

theorem twins_runLine (h : p.bare = q.bare) (hloops : LoopsAlike p q) :
    Twins (Listings p q) (p.insert Session.runLine) (q.insert Session.runLine) where
  bare :=
    congrArg (fun program : Program => { program with direct := Statement.bareAll Session.runLine.statements }) h
  loops counter other sought otherSought := by
    rintro ⟨⟨line, path⟩, hcounter, hother⟩ ⟨⟨place, spot⟩, hmem⟩
    cases line with
    | none =>
        rw [opened?_runLine] at hcounter
        cases hcounter
    | some number =>
        cases place with
        | none =>
            rw [named_runLine] at hmem
            cases hmem
        | some found =>
            exact hloops counter other sought otherSought ⟨⟨some number, path⟩, hcounter, hother⟩
              ⟨⟨some found, spot⟩, hmem⟩
  lists := by
    rintro ⟨line, path⟩ first last text other hs htext hother
    cases line with
    | none => cases statement?_runLine hs
    | some number => exact .inr ⟨⟨some number, path⟩, first, last, hs, htext, hother⟩

end RunLine

section Spelling

/-- All commands of a program, also those in the branches of an IF. -/
def commands (program : Program) : List Command :=
  Statement.commandsOfAll program.direct ++ program.lines.entries.flatMap fun entry => Statement.commandsOfAll entry.2

/-- The counters of a FOR or NEXT. -/
def countersOf : Command → List Name
  | .forLoop counter _ _ _ => [counter]
  | .next counters => counters
  | _ => []

def counters (program : Program) : List Name := program.commands.flatMap countersOf

/-- Every variable that counts a loop is spelled the same at each FOR and NEXT. -/
def SpellsCountersOnce (program : Program) : Prop :=
  ∀ counter ∈ program.counters, ∀ other ∈ program.counters, counter.bare = other.bare → counter = other

instance (program : Program) : Decidable program.SpellsCountersOnce :=
  inferInstanceAs (Decidable (∀ counter ∈ program.counters, ∀ other ∈ program.counters,
    counter.bare = other.bare → counter = other))

theorem commands_subset_of_getElem? {list : List Statement} {index : Nat} {s : Statement}
    (h : list[index]? = some s) : s.commands ⊆ Statement.commandsOfAll list := by
  induction list generalizing index with
  | nil => cases h
  | cons first rest ih =>
      rw [Statement.commandsOfAll]
      cases index with
      | zero =>
          cases h
          exact List.subset_append_left _ _
      | succ index => exact List.subset_append_of_subset_right _ (ih h)

theorem mem_commandsOfAll {list : List Statement} {path : List Nat} {c : Command}
    (h : statementAt? list path = some (.command c)) : c ∈ Statement.commandsOfAll list := by
  induction list, path using statementAt?.induct with
  | case1 list index =>
      refine commands_subset_of_getElem? h ?_
      rw [Statement.commands]
      exact List.mem_singleton_self c
  | case2 list index branch rest condition thenList elseList hchoice ih =>
      rw [statementAt?, hchoice] at h
      refine commands_subset_of_getElem? hchoice ?_
      rw [Statement.commands, List.mem_append]
      have hbranch := ih h
      split at hbranch
      · exact .inl hbranch
      · exact .inr hbranch
  | case3 list index branch rest hother =>
      rw [statementAt?] at h
      split at h
      · exact absurd ‹_› (hother _ _ _)
      · cases h
  | case4 list =>
      rw [statementAt?] at h
      cases h

theorem mem_commands {cursor : Cursor} {c : Command} (h : p.statement? cursor = some (.command c)) :
    c ∈ p.commands := by
  obtain ⟨list, hlist, hat⟩ := Option.bind_eq_some_iff.mp h
  refine List.mem_append.mpr ?_
  obtain ⟨line, path⟩ := cursor
  cases line with
  | none =>
      cases hlist
      exact .inl (mem_commandsOfAll hat)
  | some number =>
      exact .inr (List.mem_flatMap.mpr ⟨(number, list), Numbered.mem_entries_iff.mpr hlist, mem_commandsOfAll hat⟩)

theorem mem_counters_of_opened? {cursor : Cursor} {counter : Name} (h : p.opened? cursor = some counter) :
    counter ∈ p.counters := by
  unfold opened? at h
  split at h
  · rename_i hloop
    cases h
    exact List.mem_flatMap.mpr ⟨_, mem_commands hloop, List.mem_singleton_self counter⟩
  · cases h

theorem mem_counters_of_named {cursor : Cursor} {counter : Name} (h : counter ∈ p.named cursor) :
    counter ∈ p.counters := by
  unfold named at h
  split at h
  · rename_i hloop
    exact List.mem_flatMap.mpr ⟨_, mem_commands hloop, h⟩
  · rename_i hnext
    exact List.mem_flatMap.mpr ⟨_, mem_commands hnext, h⟩
  · cases h

/-- Programs that each spell every loop variable one way spell them alike. -/
theorem loopsAlike_of_once (h : p.bare = q.bare) (hp : p.SpellsCountersOnce) (hq : q.SpellsCountersOnce) :
    LoopsAlike p q := by
  intro counter other sought otherSought hopened hnamed
  have hbare := bare_of_opened h hopened
  have hboth := bare_of_named h hnamed
  obtain ⟨cursor, hcounter, hother⟩ := hopened
  obtain ⟨place, hmem⟩ := hnamed
  constructor
  · intro heq
    refine hq _ (mem_counters_of_opened? hother) _ (mem_counters_of_named (List.of_mem_zip hmem).2) ?_
    rw [← hbare, heq, hboth]
  · intro heq
    refine hp _ (mem_counters_of_opened? hcounter) _ (mem_counters_of_named (List.of_mem_zip hmem).1) ?_
    rw [hbare, heq, hboth]

theorem bare_eq_of_parts (hentries : p.bare.lines.entries = q.bare.lines.entries)
    (hdirect : p.bare.direct = q.bare.direct) (hguarded : p.guarded = q.guarded) : p.bare = q.bare := by
  unfold bare at hentries hdirect ⊢
  dsimp only at hentries hdirect
  simp only [hentries, hdirect, hguarded]

end Spelling

end Program

namespace Session

open Program

variable {p q : Program} {session : Session}

/-- Nothing but RUN is typed in: what a host hears that puts a program into a session and runs it. -/
def heardOfRun (files : String → Except Fault (List UInt8)) (budgets : List Nat) (session : Session)
    (program : Program) : List Event :=
  heard files budgets ({ session with program }.enter "RUN").2

theorem enter_run (session : Session) (hidle : session.isBusy = false) (hauto : session.settings.auto = none) :
    session.enter "RUN" = (true, session.startDirect runLine) := by
  have htext : session.numberedText "RUN" = (some "RUN", session) := numberedText_of_auto_none hauto "RUN"
  exact enter_direct hidle htext (by rw [Token.lex_eq]; decide +kernel) rfl rfl

theorem heardOfRun_new (files : String → Except Fault (List UInt8)) (budgets : List Nat) (program : Program) :
    heardOfRun files budgets {} program = heard files budgets (startDirect { program } runLine) := by
  rw [heardOfRun, enter_run _ rfl rfl]

theorem calm_of_idle (hidle : session.isBusy = false) : session.loading = none ∧ session.waiting = [] := by
  simp only [isBusy, Bool.or_eq_false_iff, Option.isSome_eq_false_iff, Option.isNone_iff_eq_none, Bool.not_eq_false',
    List.isEmpty_iff] at hidle
  exact ⟨hidle.1.2, hidle.2⟩

/-- **The sigil of a single does not show in a run**, where a loop variable is spelled alike in one of the
programs exactly if it is in the other. -/
theorem respelled_runs_agree (h : p.bare = q.bare) (hloops : LoopsAlike p q) (session : Session)
    (hidle : session.isBusy = false) (hauto : session.settings.auto = none)
    (files : String → Except Fault (List UInt8)) (budgets : List Nat) :
    List.Forall₂ (Event.Agree (p.Listings q)) (heardOfRun files budgets session p)
        (heardOfRun files budgets session q) ∧
      ((∀ cursor first last, p.statement? cursor ≠ some (.command (.list first last))) →
        heardOfRun files budgets session p = heardOfRun files budgets session q) ∧
      ∀ name : Name, name.isFunction = false → (∀ c ∈ name.spelling.toList.getLast?, Token.isSigil c = false) →
        (⟨name.spelling ++ "!"⟩ : Name).bare = name.bare := by
  have henter : ∀ program : Program,
      ({ session with program }.enter "RUN").2 = { session with program }.startDirect runLine :=
    fun program => congrArg Prod.snd (enter_run { session with program } hidle hauto)
  have hagree : List.Forall₂ (Event.Agree (p.Listings q)) (heardOfRun files budgets session p)
      (heardOfRun files budgets session q) := by
    unfold heardOfRun
    rw [henter p, henter q]
    obtain ⟨hloading, hwaiting⟩ := calm_of_idle hidle
    exact (Together.starting session hloading hwaiting).heard files (twins_runLine h hloops) budgets
  refine ⟨hagree, fun hnone => ?_, fun name hfunction hsigil => ?_⟩
  · rw [← List.forall₂_eq_eq_eq]
    refine hagree.imp fun event found hevent => hevent.eq_of_unlisted ?_
    rintro text other ⟨cursor, first, last, hlist, -⟩
    exact hnone cursor first last hlist
  · rw [Name.bare_exclaim hfunction hsigil, Name.bare_of_sigilless hsigil]

/-- A loop that reads a variable and is listed in part. -/
def readingLoop (counter target : Name) : Program :=
  Program.empty
    |>.insert ⟨some 10, [.command (.forLoop counter (.int 1) (.int 2) none)]⟩
    |>.insert ⟨some 20, [.command (.read [.scalar target])]⟩
    |>.insert ⟨some 30, [.command (.next [counter])]⟩
    |>.insert ⟨some 40, [.command (.list (some 20) (some 20))]⟩
    |>.insert ⟨some 50, [.command (.data [.raw "3", .raw "4"])]⟩

theorem respelled_runs_agree_readingLoop :
    let plain := readingLoop ⟨"A"⟩ ⟨"B"⟩
    let marked := readingLoop ⟨"A!"⟩ ⟨"B!"⟩
    plain.bare = marked.bare ∧ LoopsAlike plain marked ∧
      List.Forall₂ (Event.Agree (plain.Listings marked)) (heardOfRun (fun _ => .ok []) [20, 20] {} plain)
        (heardOfRun (fun _ => .ok []) [20, 20] {} marked) ∧
      heardOfRun (fun _ => .ok []) [20, 20] {} plain = [.print "20 READ B\n", .stopped] ∧
      heardOfRun (fun _ => .ok []) [20, 20] {} marked = [.print "20 READ B!\n", .stopped] := by
  intro plain marked
  have hbare : plain.bare = marked.bare :=
    bare_eq_of_parts (by decide +kernel) (by decide +kernel) (by decide +kernel)
  have hloops : LoopsAlike plain marked := loopsAlike_of_once hbare (by decide +kernel) (by decide +kernel)
  have hrun := respelled_runs_agree hbare hloops {} (by decide) rfl (fun _ => .ok []) [20, 20]
  exact ⟨hbare, hloops, hrun.1, by rw [heardOfRun_new]; decide +kernel, by rw [heardOfRun_new]; decide +kernel⟩

/-- A loop over A whose NEXT names a variable. -/
def loopWithNext (sought : Name) : Program :=
  Program.empty
    |>.insert ⟨some 10, [.command (.forLoop ⟨"A"⟩ (.int 1) (.int 2) none)]⟩
    |>.insert ⟨some 20, [.command (.next [sought])]⟩

/-- A FOR and a NEXT that spell their counter differently do not match. -/
theorem respelled_next_differs :
    (loopWithNext ⟨"A"⟩).bare = (loopWithNext ⟨"A!"⟩).bare ∧
      heardOfRun (fun _ => .ok []) [20, 20] {} (loopWithNext ⟨"A"⟩) = [.stopped, .stopped] ∧
      heardOfRun (fun _ => .ok []) [20, 20] {} (loopWithNext ⟨"A!"⟩) = [.faults [⟨1, some 20, ""⟩], .stopped] :=
  ⟨bare_eq_of_parts (by decide +kernel) (by decide +kernel) (by decide +kernel),
    by rw [heardOfRun_new]; decide +kernel, by rw [heardOfRun_new]; decide +kernel⟩

end Session

end LineBasic
