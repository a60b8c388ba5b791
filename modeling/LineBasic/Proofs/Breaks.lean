import LineBasic.Proofs.Continue
import LineBasic.Proofs.DirectLines
import LineBasic.Proofs.Tracing

/-! Breaks and the run they are meant for. A break that nothing is running for stays up until the next thing
runs, and it names the statement that was carried out last, which no end of a run and no start of another one
changes. So the first statement of a direct line can be cut off by a break of earlier, and a break before it
can name a line of a run that is long over. -/

namespace LineBasic

theorem eq_empty_of_appendPrint {text : String} {events : List Event} (h : appendPrint text events = events) :
    text = "" := by
  fun_induction appendPrint text events with
  | case1 => cases h
  | case2 before =>
      have hlength := congrArg String.length (Event.print.inj (List.singleton_inj.mp h))
      rw [String.length_append, Nat.add_eq_left] at hlength
      exact String.length_eq_zero_iff.mp hlength
  | case3 event rest _ ih => exact ih (List.cons.inj h).2

namespace Session

open SessionAct

variable {session after : Session}

section Entered

/-- Entering a text has to do with neither the statement carried out last, nor the print column, the
keyboard and the file that is asked for. -/
structure Untouched (session after : Session) : Prop where
  current : after.current = session.current
  column : after.column = session.column
  keys : after.keys = session.keys
  loading : after.loading = session.loading

theorem Entries.untouched (h : Entries session after) : Untouched session after := by
  induction h with
  | refl => exact ⟨rfl, rfl, rfl, rfl⟩
  | tail _ hentry ih =>
      cases hentry with
      | auto | wait | start | store | report => exact ⟨ih.current, ih.column, ih.keys, ih.loading⟩

theorem untouched_enter (session : Session) (text : String) : Untouched session (session.enter text).2 :=
  Entries.untouched (entries_enter session text)

/-- What is started by an entry starts at its first statement. -/
theorem Entries.cursor (h : Entries session after) (hsession : session.isRunning = false)
    (hrunning : after.isRunning = true) : after.cursor = some (.start none) := by
  induction h with
  | refl =>
      rw [hsession] at hrunning
      cases hrunning
  | tail _ hentry ih =>
      cases hentry with
      | start => rfl
      | auto | wait | store | report => exact ih hrunning

theorem Entries.running_not_mem (h : Entries session after) (hsession : .running ∉ session.events) :
    .running ∉ after.events := by
  induction h with
  | refl => exact hsession
  | tail _ hentry ih =>
      cases hentry with
      | report faults =>
          rw [report, List.mem_append, List.mem_singleton, not_or]
          exact ⟨ih, nofun⟩
      | auto | wait | start | store => exact ih

theorem events_takeLine (session : Session) (line : Line) : (session.takeLine line).events = session.events := by
  unfold takeLine
  repeat' split
  all_goals rfl

/-- A direct line leaves the place for CONT alone. -/
theorem restart_takeLine {line : Line} (hline : line.isDirect = true) (session : Session) :
    (session.takeLine line).settings.restart = session.settings.restart := by
  unfold takeLine
  rw [if_pos hline]
  split
  · rfl
  · split <;> rfl

/-- A line that is taken in while nothing runs or waits is started, or nothing runs or waits after it. -/
theorem runs_or_atRest_takeLine (h : session.isRunning = true ∨ session.AtRest) (line : Line) :
    (session.takeLine line).isRunning = true ∨ (session.takeLine line).AtRest := by
  unfold takeLine
  split
  · split
    · exact h
    · split
      · rename_i hbusy
        -- a session at rest is not busy, so that the line has to wait for a run
        rcases h with hrunning | hrest
        · exact .inl hrunning
        · rw [isBusy, hrest.isRunning, hrest.loading, hrest.waiting] at hbusy
          cases hbusy
      · exact .inl rfl
  · exact h.imp id fun hrest => ⟨hrest.isRunning, hrest.loading, hrest.waiting⟩

theorem runs_or_atRest_enter (h : session.AtRest) (text : String) :
    (session.enter text).2.isRunning = true ∨ (session.enter text).2.AtRest := by
  obtain ⟨auto, events, hready, -⟩ := exists_readied session text
  have hready : (session.readied text).AtRest := by
    rw [hready]
    exact ⟨h.isRunning, h.loading, h.waiting⟩
  rw [enter_eq_takeLines]
  exact List.foldlRecOn (session.taken text) takeLine
    (motive := fun after => after.isRunning = true ∨ after.AtRest) (.inr hready)
    fun _ hafter line _ => runs_or_atRest_takeLine hafter line

theorem restart_enter {text : String} (htext : ∀ line ∈ session.taken text, line.isDirect = true) :
    (session.enter text).2.settings.restart = session.settings.restart := by
  obtain ⟨auto, events, hready, -⟩ := exists_readied session text
  have hready : (session.readied text).settings.restart = session.settings.restart := by rw [hready]
  rw [enter_eq_takeLines]
  exact List.foldlRecOn (session.taken text) takeLine
    (motive := fun after => after.settings.restart = session.settings.restart) hready
    fun after hafter line hline => (restart_takeLine (htext line hline) after).trans hafter

/-- A text that starts something was not refused. -/
theorem events_enter {text : String} (hsession : session.isRunning = false)
    (hrunning : (session.enter text).2.isRunning = true) : (session.enter text).2.events = session.events := by
  rw [enter, numberedText_eq] at hrunning ⊢
  cases htext : session.enteredText? text with
  | none => rfl
  | some source =>
      rw [htext] at hrunning
      dsimp only at hrunning ⊢
      by_cases hfaults : (Parsed.ofTokens (Token.lex source)).faults.isEmpty = true
      · rw [if_pos hfaults]
        have hlines : ∀ (lines : List Line) (ready : Session), ready.events = session.events →
            (lines.foldl takeLine ready).events = session.events := fun lines _ hready =>
          List.foldlRecOn lines takeLine (motive := fun after => after.events = session.events) hready
            fun after hafter line _ => (events_takeLine after line).trans hafter
        exact hlines _ _ rfl
      · rw [if_neg hfaults] at hrunning
        exact absurd (hsession.symm.trans hrunning) Bool.false_ne_true

/-- A break is no part of what an entry has to do with. -/
theorem takeLine_sendBreak (session : Session) (line : Line) :
    session.sendBreak.takeLine line = (session.takeLine line).sendBreak := by
  have hbusy : session.sendBreak.isBusy = session.isBusy := rfl
  unfold takeLine
  rw [hbusy]
  by_cases hdirect : line.isDirect = true
  · rw [if_pos hdirect, if_pos hdirect]
    by_cases hempty : line.isEmpty = true
    · rw [if_pos hempty, if_pos hempty]
    · rw [if_neg hempty, if_neg hempty]
      split <;> rfl
  · rw [if_neg hdirect, if_neg hdirect]
    rfl

theorem enter_sendBreak (session : Session) (text : String) :
    session.sendBreak.enter text = ((session.enter text).1, (session.enter text).2.sendBreak) := by
  have htext : session.sendBreak.enteredText? text = session.enteredText? text := rfl
  have hlines : ∀ (lines : List Line) (session : Session),
      lines.foldl takeLine session.sendBreak = (lines.foldl takeLine session).sendBreak :=
    fun _ _ => List.foldl_hom sendBreak takeLine_sendBreak
  rw [enter, enter, numberedText_eq, numberedText_eq, htext]
  cases session.enteredText? text with
  | none => rfl
  | some source =>
      dsimp only
      by_cases hfaults : (Parsed.ofTokens (Token.lex source)).faults.isEmpty = true
      · rw [if_pos hfaults, if_pos hfaults]
        exact congrArg (Prod.mk true)
          (hlines _ { session with settings := { session.settings with auto := session.autoAfter text } })
      · rw [if_neg hfaults, if_neg hfaults]
        rfl

end Entered

section Obeyed

/-- What a break in a line says, on a line of the screen of its own. -/
def breakText (session : Session) (line : Nat) : String :=
  (if session.column > 0 then "\n" else "") ++ "Break in " ++ toString line ++ "\n"

theorem breakText_ne_empty (session : Session) (line : Nat) : session.breakText line ≠ "" := by
  intro hempty
  have hlength := congrArg String.length hempty
  rw [breakText, String.length_append, String.length_append, String.length_append] at hlength
  have hnewline : "\n".length = 1 := rfl
  rw [hnewline, String.length_empty] at hlength
  exact Nat.succ_ne_zero _ hlength

/-- What a break tells: the line of the statement that was carried out last. -/
def breakNews (session : Session) : List Event :=
  match session.current.line with
  | some line => [.print (session.breakText line)]
  | none => []

theorem interrupt_of_not_isRunning (hrunning : session.isRunning = false) : session.interrupt = session.quiet := by
  have hquiet : ¬session.quiet.isRunning = true := Bool.eq_false_iff.mp hrunning
  exact if_neg hquiet

/-- A break after a statement of a direct line says nothing and leaves the place for CONT. -/
theorem interrupt_of_direct (hline : session.current.line = none) :
    session.interrupt.events = session.events ∧
      session.interrupt.settings.restart = session.settings.restart := by
  cases hrunning : session.isRunning with
  | false =>
      rw [interrupt_of_not_isRunning hrunning]
      exact ⟨rfl, rfl⟩
  | true =>
      have hquiet : session.quiet.current.line = none := hline
      rw [interrupt_of_isRunning hrunning, breakOff, hquiet]
      exact ⟨rfl, rfl⟩

/-- A break after a statement on a numbered line names that line and takes the next statement for CONT. -/
theorem interrupt_of_numbered {number : Nat} (hrunning : session.isRunning = true)
    (hline : session.current.line = some number) :
    session.interrupt.events = appendPrint (session.breakText number) session.events ∧
      session.interrupt.settings.restart = session.cursor := by
  have hquiet : session.quiet.current.line = some number := hline
  rw [interrupt_of_isRunning hrunning, breakOff, hquiet]
  exact ⟨rfl, rfl⟩

theorem breakNews_of_numbered {number : Nat} (hline : session.current.line = some number) :
    ∃ text, session.breakNews = [.print text] := by
  unfold breakNews
  rw [hline]
  exact ⟨_, rfl⟩

theorem events_interrupt_of_silent (hevents : session.events = []) (hrunning : session.isRunning = true) :
    session.interrupt.events = session.breakNews := by
  unfold breakNews
  split
  · rename_i line hline
    rw [(interrupt_of_numbered hrunning hline).1, hevents]
    rfl
  · rename_i hline
    rw [(interrupt_of_direct hline).1, hevents]

theorem interrupt_is_silent_iff (session : Session) :
    session.interrupt.events = session.events ∧
        session.interrupt.settings.restart = session.settings.restart ↔
      session.isRunning = false ∨ session.current.line = none := by
  constructor
  · rintro ⟨hevents, -⟩
    cases hrunning : session.isRunning with
    | false => exact .inl rfl
    | true =>
        cases hline : session.current.line with
        | none => exact .inr rfl
        | some number =>
            rw [(interrupt_of_numbered hrunning hline).1] at hevents
            exact absurd (eq_empty_of_appendPrint hevents) (session.breakText_ne_empty number)
  · rintro (hrunning | hline)
    · rw [interrupt_of_not_isRunning hrunning]
      exact ⟨rfl, rfl⟩
    · exact interrupt_of_direct hline

/-- The session once a break that is up has been obeyed. -/
def broken (session : Session) : Session := { session with keys := session.keys.clearBreak }.interrupt

theorem atRest_broken (hrunning : session.isRunning = true) : session.broken.AtRest := atRest_interrupt hrunning

theorem events_broken (hevents : session.events = []) (hrunning : session.isRunning = true) :
    session.broken.events = session.breakNews := events_interrupt_of_silent hevents hrunning

end Obeyed

section Rest

variable (files : String → Except Fault (List UInt8))

theorem execute_of_atRest (h : session.AtRest) (cycles : Nat) :
    execute cycles session =
      match session.events with
      | event :: rest => (event, { session with events := rest })
      | [] => (.stopped, session) := by
  cases hevents : session.events with
  | cons event rest => exact execute_of_events hevents cycles
  | nil =>
      cases cycles with
      | zero =>
          rw [execute_zero_of_quiet hevents, h.isRunning, h.waiting]
          rfl
      | succ cycles => exact execute_of_idle hevents h.loading h.isRunning h.waiting cycles

theorem noted_of_ne {event : Event} (h : event ≠ .running) (after : Session) :
    noted (event, after) = [(event, after)] := by
  cases event with
  | running => exact absurd rfl h
  | stopped | print | faults | load | files => rfl

theorem answered_of_loading_none {event : Event} (h : after.loading = none) : answered files (event, after) = after := by
  cases event with
  | load request =>
      change after.completeLoad _ = after
      unfold completeLoad
      rw [h]
  | stopped | running | print | faults | files => rfl

/-- A session at rest tells what it has to tell, and then that it has stopped. -/
theorem observed_of_atRest (h : session.AtRest) (hevents : .running ∉ session.events) {calls : List Nat}
    {count : Nat} (hcount : calls.length ≤ count) :
    (observed files calls session).map Prod.fst =
      (session.events ++ List.replicate count Event.stopped).take calls.length := by
  induction calls generalizing session count with
  | nil => exact (List.take_zero).symm
  | cons cycles rest ih =>
      rw [observed, execute_of_atRest h, List.map_append, List.length_cons]
      cases hsession : session.events with
      | nil =>
          obtain ⟨fewer, rfl⟩ := Nat.exists_eq_add_of_le' (Nat.le_trans (Nat.le_add_left 1 rest.length) hcount)
          have hrest := ih h hevents (Nat.le_of_succ_le_succ hcount)
          rw [hsession, List.nil_append] at hrest
          exact congrArg (Event.stopped :: ·) hrest
      | cons event later =>
          rw [hsession, List.mem_cons, not_or] at hevents
          have hlater : AtRest { session with events := later } := ⟨h.isRunning, h.loading, h.waiting⟩
          dsimp only
          rw [noted_of_ne (Ne.symm hevents.1), answered_of_loading_none files hlater.loading,
            ih hlater hevents.2 (Nat.le_of_succ_le hcount)]
          rfl

end Rest

section Hushed

/-- A session with nothing to tell, that nothing but another line can make run: nothing is left in it, or a
break is up and the statement that was carried out last is on a direct line. -/
structure Hushed (restart : Option Cursor) (session : Session) : Prop where
  events : session.events = []
  loading : session.loading = none
  restart : session.settings.restart = restart
  calm : session.isRunning = false ∧ session.waiting = [] ∨
    session.keys.breakSeen = true ∧ session.current.line = none

variable {restart : Option Cursor}

theorem Hushed.turn {next : Session} (h : session.Hushed restart) (hturn : session.turn? = some next) :
    next.Hushed restart := by
  rcases h.calm with ⟨hrunning, hwaiting⟩ | ⟨hseen, hline⟩
  · rw [turn?_of_idle hrunning hwaiting] at hturn
    cases hturn
  · cases turn_of_turn? hturn with
    | start => exact ⟨h.events, h.loading, h.restart, .inr ⟨hseen, hline⟩⟩
    | obey _ _ hrunning =>
        have hrest : session.broken.AtRest := atRest_broken hrunning
        have hcurrent : { session with keys := session.keys.clearBreak }.current.line = none := hline
        obtain ⟨hevents, hrestart⟩ := interrupt_of_direct hcurrent
        exact ⟨hevents.trans h.events, hrest.loading, hrestart.trans h.restart, .inl ⟨hrest.isRunning, hrest.waiting⟩⟩
    | step _ _ _ hbreak => cases hseen.symm.trans hbreak

theorem Hushed.execute (h : session.Hushed restart) (cycles : Nat) :
    ((execute cycles session).1 = .running ∨ (execute cycles session).1 = .stopped) ∧
      (execute cycles session).2.Hushed restart := by
  induction cycles generalizing session with
  | zero =>
      obtain hcall | ⟨-, -, hcall⟩ := execute_zero_cases h.events
      · rw [hcall]
        exact ⟨.inl rfl, h⟩
      · rw [hcall]
        exact ⟨.inr rfl, h⟩
  | succ cycles ih =>
      rw [execute_succ]
      cases hturn : session.turn? with
      | some next => exact ih (h.turn hturn)
      | none =>
          have hstopped : session.immediate = (.stopped, session) := by
            unfold immediate
            rw [h.events, h.loading]
          dsimp only
          rw [hstopped]
          exact ⟨.inr rfl, h⟩

theorem Hushed.observed (files : String → Except Fault (List UInt8)) (h : session.Hushed restart) (calls : List Nat) :
    ∀ told ∈ observed files calls session, told.1 = .stopped ∧ told.2.settings.restart = restart := by
  induction calls generalizing session with
  | nil => exact fun _ htold => absurd htold List.not_mem_nil
  | cons cycles rest ih =>
      obtain ⟨htold, hafter⟩ := h.execute cycles
      rw [Session.observed, List.forall_mem_append]
      generalize Session.execute cycles session = call at htold hafter
      obtain ⟨event, after⟩ := call
      constructor
      · rcases htold with rfl | rfl
        · exact fun _ hnoted => absurd hnoted List.not_mem_nil
        · exact List.forall_mem_singleton.mpr ⟨rfl, hafter.restart⟩
      · rw [answered_of_loading_none files hafter.loading]
        exact ih hafter

end Hushed

section News

/-- A break that is up is told by a call with two cycles where something runs or waits, if the statement that
was carried out last is on a numbered line. -/
theorem execute_of_break {number : Nat} (hevents : session.events = []) (hloading : session.loading = none)
    (hseen : session.keys.breakSeen = true) (hline : session.current.line = some number)
    (hbusy : session.isRunning = true ∨ session.waiting ≠ []) :
    ∃ text, (execute 2 session).1 = .print text := by
  have hobeyed : ∀ (session : Session) (cycles : Nat), session.events = [] → session.loading = none →
      session.isRunning = true → session.keys.breakSeen = true → session.current.line = some number →
      ∃ text, (execute (cycles + 1) session).1 = .print text := by
    intro session cycles hevents hloading hrunning hseen hline
    obtain ⟨text, hnews⟩ := breakNews_of_numbered hline
    rw [execute_succ, turn?_of_obey hevents hloading hrunning hseen]
    exact ⟨text, congrArg Prod.fst (execute_of_events ((events_broken hevents hrunning).trans hnews) cycles)⟩
  cases hrunning : session.isRunning with
  | true => exact hobeyed session 1 hevents hloading hrunning hseen hline
  | false =>
      cases hwaiting : session.waiting with
      | nil =>
          rw [hrunning, hwaiting] at hbusy
          exact absurd hbusy (by decide)
      | cons line rest =>
          rw [execute_succ, turn?_of_start hevents hloading hrunning hwaiting]
          exact hobeyed _ 0 hevents hloading rfl hseen hline

/-- Where a break is sent before the next call. -/
theorem sendBreak_is_silent_iff (hevents : session.events = []) (hloading : session.loading = none) :
    (∀ files calls, ∀ told ∈ observed files calls session.sendBreak,
        told.1 = .stopped ∧ told.2.settings.restart = session.settings.restart) ↔
      session.isRunning = false ∧ session.waiting = [] ∨ session.current.line = none := by
  constructor
  · intro hsilent
    by_contra hloud
    obtain ⟨hbusy, hnumbered⟩ := not_or.mp hloud
    obtain ⟨number, hline⟩ := Option.ne_none_iff_exists'.mp hnumbered
    have hruns : session.isRunning = true ∨ session.waiting ≠ [] := by
      rcases not_and_or.mp hbusy with hrunning | hwaiting
      · exact .inl (eq_true_of_ne_false hrunning)
      · exact .inr hwaiting
    have hbroken : session.sendBreak.isRunning = true ∨ session.sendBreak.waiting ≠ [] := hruns
    obtain ⟨text, htext⟩ : ∃ text, (execute 2 session.sendBreak).1 = .print text :=
      execute_of_break hevents hloading rfl hline hbroken
    have htold : execute 2 session.sendBreak ∈ observed (fun _ => .error (.of .fileNotFound)) [2] session.sendBreak := by
      rw [observed]
      generalize execute 2 session.sendBreak = call at htext
      obtain ⟨event, after⟩ := call
      obtain rfl : event = .print text := htext
      exact List.mem_cons_self
    have hstopped := (hsilent _ _ _ htold).1
    rw [htext] at hstopped
    cases hstopped
  · intro hcalm files calls
    have hhushed : session.sendBreak.Hushed session.settings.restart :=
      ⟨hevents, hloading, rfl, hcalm.imp id fun hline => ⟨rfl, hline⟩⟩
    exact hhushed.observed files calls

end News

section Place

/-- The place of the statement that is carried out last in what a host does from the start. -/
def lastPlace (random : Random) (script : List Deed) : Cursor :=
  ((executed (.new random) script).getLast?.map Prod.fst).getD (.start none)

theorem current_interrupt (session : Session) : session.interrupt.current = session.current := by
  cases hrunning : session.isRunning with
  | false => rw [interrupt_of_not_isRunning hrunning, quiet]
  | true => rw [interrupt_of_isRunning hrunning, (keepsPlace_breakOff session.quiet).current, quiet]

theorem current_stepOrRaise (session : Session) : session.stepOrRaise.current = session.begun.current :=
  (keepsPlace_stepOrRaise session).current

theorem current_begun_eq (session : Session) :
    session.begun.current =
      ((session.cursor.bind fun cursor =>
        (session.program.statement? cursor).map fun next => (cursor, next)).map Prod.fst).getD session.current := by
  cases hnext : session.nextStatement? with
  | none =>
      rw [begun_of_none hnext]
      cases hcursor : session.cursor with
      | none => rfl
      | some cursor =>
          have hmissing : session.program.statement? cursor = none := by
            rwa [nextStatement?, hcursor] at hnext
          rw [Option.bind_some, hmissing]
          rfl
  | some next =>
      obtain ⟨cursor, hcursor, hfound⟩ := exists_cursor hnext
      rw [current_begun hcursor hnext, hcursor, Option.bind_some, hfound]
      rfl

/-- A statement that is carried out in a cycle is the last one then. -/
theorem current_cycled (session : Session) :
    session.cycled.current = ((session.carriedOut .cycle).map Prod.fst).getD session.current := by
  dsimp only [carriedOut]
  obtain ⟨turned, hturn⟩ : ∃ turned, session.handedOut.turn? = turned := ⟨_, rfl⟩
  split
  · rename_i hruns
    rw [cycled, turn?_handedOut hruns, Option.getD_some, current_stepOrRaise]
    exact current_begun_eq session.handedOut
  · rename_i hcalm
    rw [cycled, hturn]
    cases turn_of_turn? hturn with
    | told | asked | idle | start => rfl
    | obey => exact current_interrupt _
    | step hevents hloading hrunning hbreak =>
        refine absurd ?_ hcalm
        simp only [Bool.and_eq_true, Option.isNone_iff_eq_none, Bool.not_eq_true']
        exact ⟨⟨hloading, hrunning⟩, hbreak⟩

theorem current_perform (session : Session) (deed : Deed) :
    (session.perform deed).current = ((session.carriedOut deed).map Prod.fst).getD session.current := by
  cases deed with
  | cycle => exact current_cycled session
  | enter text => exact (untouched_enter session text).current
  | interrupt => exact current_interrupt session
  | sendKey stroke => rfl
  | sendBreak => rfl
  | completeLoad answer => exact (keepsPlace_completeLoad session answer).current

/-- Nothing but a statement takes the place of the statement that was carried out last. -/
theorem current_script (session : Session) (script : List Deed) :
    (script.foldl perform session).current = ((executed session script).getLast?.map Prod.fst).getD session.current := by
  induction script generalizing session with
  | nil => rfl
  | cons deed rest ih =>
      rw [List.foldl_cons, ih, executed, current_perform, List.getLast?_append]
      cases (executed (session.perform deed) rest).getLast? with
      | some last => rfl
      | none => cases session.carriedOut deed <;> rfl

end Place

/-- **A break names the statement that was carried out last, in whatever run.** In every session that a host can
bring about and in which nothing runs, the statement on record is the last one that was ever carried out: no end
of a run, fault, load or entry changes it. When a text is entered then, direct lines leave the place for CONT
alone. An `interrupt` before the next statement says nothing and leaves that place too if and only if the text
started nothing or the statement on record is on a direct line; and a break that is sent instead, once all
events are handed out, is passed over by all calls if and only if the text left nothing to start either or the
statement on record is on a direct line. Else the break names the line of the earlier run, and CONT would start
the direct line. -/
theorem break_is_silent_iff (hreachable : session.Reachable) (hsession : session.isRunning = false) :
    (∃ (random : Random) (script : List Deed), Alike (script.foldl perform (.new random)) session) ∧
    (∀ (random : Random) (script : List Deed), Alike (script.foldl perform (.new random)) session →
      session.current = lastPlace random script) ∧
    ∀ text entered, (session.enter text).2 = entered →
      ((∀ line ∈ session.taken text, line.isDirect = true) →
        entered.settings.restart = session.settings.restart) ∧
      (entered.interrupt.events = entered.events ∧
          entered.interrupt.settings.restart = entered.settings.restart ↔
        entered.isRunning = false ∨ session.current.line = none) ∧
      ((∀ files calls, ∀ told ∈ observed files calls entered.handedOut.sendBreak,
          told.1 = .stopped ∧ told.2.settings.restart = entered.settings.restart) ↔
        entered.isRunning = false ∧ entered.waiting = [] ∨ session.current.line = none) ∧
      ∀ number, session.current.line = some number → entered.isRunning = true →
        entered.interrupt.events = appendPrint (session.breakText number) entered.events ∧
          entered.interrupt.settings.restart = some (.start none) := by
  refine ⟨?_, fun random script halike => ?_, ?_⟩
  · obtain ⟨random, hmoves⟩ := hreachable.exists_moves
    obtain ⟨script, hscript⟩ := exists_script hmoves
    exact ⟨random, script, alike_iff.mpr hscript⟩
  · have hplain := congrArg Session.current (alike_iff.mp halike)
    exact hplain.symm.trans (current_script (.new random) script)
  · intro text entered hentered
    have hentries : Entries session entered := hentered ▸ entries_enter session text
    have huntouched := hentries.untouched
    have hloading : entered.loading = none :=
      huntouched.loading.trans (hreachable.consistent.loading_eq_none hsession)
    refine ⟨fun htext => hentered ▸ restart_enter htext, ?_, ?_, fun number hline hrunning => ?_⟩
    · rw [← huntouched.current]
      exact interrupt_is_silent_iff entered
    · rw [← huntouched.current]
      have hhanded : entered.handedOut.loading = none := hloading
      exact sendBreak_is_silent_iff rfl hhanded
    · have hnumber : entered.current.line = some number := huntouched.current ▸ hline
      have htext : session.breakText number = entered.breakText number := by
        rw [breakText, breakText, huntouched.column]
      rw [htext, ← hentries.cursor hsession hrunning]
      exact interrupt_of_numbered hrunning hnumber

/-- A session whose last statement was on a direct line, after a run of a program. -/
def afterDirect : Session :=
  afterCalls [.enter "10 PRINT 1", .enter "RUN", .execute 10, .enter "PRINT 2", .execute 10, .execute 10]

theorem break_is_silent_iff_afterDirect :
    afterDirect.Reachable ∧ afterDirect.isRunning = false ∧ (afterDirect.enter "PRINT 3").2.isRunning = true ∧
      afterDirect.current.line = none ∧
      (afterDirect.enter "PRINT 3").2.interrupt.events = (afterDirect.enter "PRINT 3").2.events := by
  have hreachable : afterDirect.Reachable := reachable_afterCalls _
  obtain ⟨hsession, hrunning, hline⟩ : afterDirect.isRunning = false ∧
      (afterDirect.enter "PRINT 3").2.isRunning = true ∧ afterDirect.current.line = none := by
    rw [enter_eq, afterDirect, afterCalls_eq]
    decide +kernel
  obtain ⟨-, -, hentered⟩ := break_is_silent_iff hreachable hsession
  obtain ⟨-, hinterrupt, -⟩ := hentered "PRINT 3" _ rfl
  exact ⟨hreachable, hsession, hrunning, hline, (hinterrupt.mpr (.inr hline)).1⟩

/-- A session whose last statement was on a numbered line. -/
def afterRun : Session := afterCalls [.enter "10 REM", .enter "RUN", .execute 10]

/-- A break before a direct line names the line that ended the run before. -/
theorem break_names_ended_run :
    afterRun.Reachable ∧ afterRun.isRunning = false ∧ (afterRun.enter "PRINT 2").2.settings.restart = none ∧
      (afterRun.enter "PRINT 2").2.interrupt.events = [.print "Break in 10\n"] ∧
      (afterRun.enter "PRINT 2").2.interrupt.settings.restart = some (.start none) ∧
      (execute 2 (afterRun.enter "PRINT 2").2.sendBreak).1 = .print "Break in 10\n" := by
  refine ⟨reachable_afterCalls _, ?_⟩
  rw [enter_eq, afterRun, afterCalls_eq]
  decide +kernel

section Idle

theorem sendBreak_of_seen (h : session.keys.breakSeen = true) : session.sendBreak = session := by
  rw [sendBreak, Keys.sendBreak, ← h]

/-- A break that is obeyed is no longer up, so that it is as good as an interrupt. -/
theorem broken_sendBreak (h : session.keys.breakSeen = false) : session.sendBreak.broken = session.interrupt := by
  have hkeys : session.keys.sendBreak.clearBreak = session.keys := by
    rw [Keys.sendBreak, Keys.clearBreak, ← h]
  unfold broken sendBreak
  rw [hkeys]

theorem turn?_sendBreak (hevents : session.events = []) (hloading : session.loading = none)
    (hrunning : session.isRunning = true) : session.sendBreak.turn? = some session.sendBreak.broken :=
  turn?_of_obey hevents hloading hrunning rfl

/-- A break is obeyed in the place of a statement. -/
theorem execute_sendBreak (hevents : session.events = []) (hloading : session.loading = none)
    (hrunning : session.isRunning = true) (hseen : session.keys.breakSeen = false) (cycles : Nat) :
    execute (cycles + 1) session.sendBreak = execute cycles session.interrupt ∧
      execute (cycles + 1) session = execute cycles session.stepOrRaise := by
  rw [execute_succ, execute_succ, turn?_sendBreak hevents hloading hrunning, broken_sendBreak hseen,
    turn?_of_step hevents hloading hrunning hseen]
  exact ⟨rfl, rfl⟩

/-- A break that is up cuts off what runs, and the calls tell the news of it and then that nothing runs. -/
theorem observed_sendBreak_of_isRunning (files : String → Except Fault (List UInt8)) (hevents : session.events = [])
    (hloading : session.loading = none) (hrunning : session.isRunning = true) {calls : List Nat}
    (hcalls : ∀ cycles ∈ calls, 1 ≤ cycles) :
    (observed files calls session.sendBreak).map Prod.fst =
      (session.breakNews ++ List.replicate calls.length Event.stopped).take calls.length := by
  cases calls with
  | nil => exact List.take_zero.symm
  | cons cycles rest =>
      obtain ⟨fewer, rfl⟩ := Nat.exists_eq_add_of_le' (hcalls cycles List.mem_cons_self)
      have hbroken : session.sendBreak.broken.AtRest := atRest_broken hrunning
      have hnews : session.sendBreak.broken.events = session.breakNews := events_broken hevents hrunning
      have hquiet : Event.running ∉ session.breakNews := by
        unfold breakNews
        split <;> simp
      have hcall : execute (fewer + 1) session.sendBreak = execute fewer session.sendBreak.broken := by
        rw [execute_succ, turn?_sendBreak hevents hloading hrunning]
      -- the first cycle is used up by the break, and what is left of its call is a call to a session at rest
      rw [observed, hcall, ← observed, observed_of_atRest files hbroken (hnews ▸ hquiet) (Nat.le_refl _), hnews]
      rfl

end Idle

/-- **A break while nothing runs is saved up.** In every session that a host can bring about and in which nothing
runs, waits or has to be told, a call after a break tells that nothing runs and changes nothing, so that the
break is still up when a text is entered, which is taken in as without it. If the text starts nothing, or a break
was up before, the calls after it tell the same as without this break. If it starts something and no break was
up, that is cut off before its first statement: a call breaks it off where it would have carried out that
statement, and the calls tell no more than the line of an earlier run, if the last statement was on one, and that
nothing runs. -/
theorem idle_break_cuts_next_line (hreachable : session.Reachable) (hsession : session.isRunning = false)
    (hwaiting : session.waiting = []) (hevents : session.events = []) :
    (∀ cycles, execute cycles session.sendBreak = (.stopped, session.sendBreak)) ∧
    ∀ text entered, (session.enter text).2 = entered →
      session.sendBreak.enter text = ((session.enter text).1, entered.sendBreak) ∧
      (entered.isRunning = false ∨ session.keys.breakSeen = true → ∀ files calls,
        (observed files calls entered.sendBreak).map Prod.fst = (observed files calls entered).map Prod.fst) ∧
      (entered.isRunning = true →
        (∀ files calls, (∀ cycles ∈ calls, 1 ≤ cycles) →
          (observed files calls entered.sendBreak).map Prod.fst =
            (session.breakNews ++ List.replicate calls.length Event.stopped).take calls.length) ∧
        (session.keys.breakSeen = false → ∀ cycles,
          execute (cycles + 1) entered.sendBreak = execute cycles entered.interrupt ∧
            execute (cycles + 1) entered = execute cycles entered.stepOrRaise)) := by
  have hloading : session.loading = none := hreachable.consistent.loading_eq_none hsession
  have hrest : session.AtRest := ⟨hsession, hloading, hwaiting⟩
  constructor
  · intro cycles
    have hbroken : session.sendBreak.AtRest := ⟨hsession, hloading, hwaiting⟩
    have hsilent : session.sendBreak.events = [] := hevents
    rw [execute_of_atRest hbroken, hsilent]
  · intro text entered hentered
    have hentries : Entries session entered := hentered ▸ entries_enter session text
    have huntouched := hentries.untouched
    refine ⟨hentered ▸ enter_sendBreak session text, fun hsame files calls => ?_, fun hrunning => ?_⟩
    · rcases hsame with hidle | hseen
      · have hidle : entered.AtRest := by
          refine (hentered ▸ runs_or_atRest_enter hrest text).resolve_left fun hrunning => ?_
          exact absurd (hidle.symm.trans hrunning) Bool.false_ne_true
        have hbroken : entered.sendBreak.AtRest := ⟨hidle.isRunning, hidle.loading, hidle.waiting⟩
        have hquiet : Event.running ∉ entered.events := hentries.running_not_mem (hevents ▸ List.not_mem_nil)
        rw [observed_of_atRest files hbroken hquiet (Nat.le_refl _),
          observed_of_atRest files hidle hquiet (Nat.le_refl _)]
        rfl
      · rw [sendBreak_of_seen (huntouched.keys ▸ hseen)]
    · have hnone : entered.events = [] := by
        rw [← hentered, events_enter hsession (hentered ▸ hrunning), hevents]
      have hasked : entered.loading = none := huntouched.loading.trans hloading
      have hnews : entered.breakNews = session.breakNews := by
        unfold breakNews breakText
        rw [huntouched.current, huntouched.column]
      constructor
      · intro files calls hcalls
        rw [observed_sendBreak_of_isRunning files hnone hasked hrunning hcalls, hnews]
      · intro hseen cycles
        have hflag : entered.keys.breakSeen = false := by rw [huntouched.keys, hseen]
        exact execute_sendBreak hnone hasked hrunning hflag cycles

theorem idle_break_cuts_next_line_afterRun :
    afterRun.Reachable ∧ afterRun.isRunning = false ∧ afterRun.waiting = [] ∧ afterRun.events = [] ∧
      (afterRun.enter "PRINT 2").2.isRunning = true ∧
      (observed nextOnDisk [1, 5, 1] (afterRun.enter "PRINT 2").2.sendBreak).map Prod.fst =
        [.print "Break in 10\n", .stopped, .stopped] := by
  have hreachable : afterRun.Reachable := reachable_afterCalls _
  obtain ⟨hsession, hwaiting, hevents, hrunning, hnews⟩ : afterRun.isRunning = false ∧ afterRun.waiting = [] ∧
      afterRun.events = [] ∧ (afterRun.enter "PRINT 2").2.isRunning = true ∧
      afterRun.breakNews = [.print "Break in 10\n"] := by
    rw [enter_eq, afterRun, afterCalls_eq]
    decide +kernel
  obtain ⟨-, hentered⟩ := idle_break_cuts_next_line hreachable hsession hwaiting hevents
  obtain ⟨-, -, hcut⟩ := hentered "PRINT 2" _ rfl
  refine ⟨hreachable, hsession, hwaiting, hevents, hrunning, ?_⟩
  have hsizes : ∀ cycles ∈ [1, 5, 1], 1 ≤ cycles := by decide
  have htold := (hcut hrunning).1 nextOnDisk [1, 5, 1] hsizes
  rwa [hnews] at htold

/-- In a new session a break and a call keep the first line that is entered from printing. -/
theorem break_saved_up_for_first_line :
    Reachable {} ∧ execute 1 ({} : Session).sendBreak = (.stopped, ({} : Session).sendBreak) ∧
      (observed nextOnDisk [10, 10] (({} : Session).sendBreak.enter "PRINT 1").2).map Prod.fst = [.stopped, .stopped] ∧
      (observed nextOnDisk [10, 10] (({} : Session).enter "PRINT 1").2).map Prod.fst =
        [.print " 1 \n", .stopped] := by
  refine ⟨.new {}, rfl, ?_⟩
  rw [enter_eq, enter_eq]
  decide +kernel

end Session

end LineBasic
