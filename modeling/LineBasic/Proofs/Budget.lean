import LineBasic.Proofs.Reachable
import Mathlib.Algebra.Ring.Nat

/-! Cycles. A host carries a session on in calls, and gives each call a number of cycles to use. That
number does not show: calls of one cycle each report the same events, with the same session after
each, as calls of any other sizes. -/

namespace LineBasic

namespace Session

variable {session next : Session}

/-- What a cycle does where there is nothing to report: a line that waits is started, a break is
obeyed, or a statement is carried out. -/
def turn? (session : Session) : Option Session :=
  match session.events, session.loading with
  | [], none =>
      if !session.isRunning then
        match session.waiting with
        | line :: rest => some ({ session with waiting := rest }.startDirect line)
        | [] => none
      else if session.keys.breakSeen then
        some { session with keys := session.keys.clearBreak }.interrupt
      else some session.stepOrRaise
  | _, _ => none

/-- There is no turn while the host has not heard of an event. -/
theorem turn?_of_events {event : Event} {rest : List Event} (h : session.events = event :: rest) :
    session.turn? = none := by
  unfold turn?
  rw [h]

/-- There is no turn while a file is awaited. -/
theorem turn?_of_loading {request : LoadRequest} (h : session.loading = some request) : session.turn? = none := by
  unfold turn?
  rw [h]
  cases session.events <;> rfl

theorem turn?_of_idle (hrunning : session.isRunning = false) (hwaiting : session.waiting = []) :
    session.turn? = none := by
  unfold turn?
  rw [hrunning, hwaiting]
  split <;> rfl

theorem turn?_of_start {line : Line} {rest : List Line} (hevents : session.events = [])
    (hloading : session.loading = none) (hrunning : session.isRunning = false)
    (hwaiting : session.waiting = line :: rest) :
    session.turn? = some ({ session with waiting := rest }.startDirect line) := by
  unfold turn?
  rw [hevents, hloading, hrunning, hwaiting]
  rfl

theorem turn?_of_obey (hevents : session.events = []) (hloading : session.loading = none)
    (hrunning : session.isRunning = true) (hbreak : session.keys.breakSeen = true) :
    session.turn? = some { session with keys := session.keys.clearBreak }.interrupt := by
  unfold turn?
  rw [hevents, hloading, hrunning, hbreak]
  rfl

theorem turn?_of_step (hevents : session.events = []) (hloading : session.loading = none)
    (hrunning : session.isRunning = true) (hbreak : session.keys.breakSeen = false) :
    session.turn? = some session.stepOrRaise := by
  unfold turn?
  rw [hevents, hloading, hrunning, hbreak]
  rfl

/-- What a cycle does, with all that decides about it. -/
inductive Turn (session : Session) : Option Session → Prop
  | told {event : Event} {rest : List Event} (hevents : session.events = event :: rest) : Turn session none
  | asked {request : LoadRequest} (hloading : session.loading = some request) : Turn session none
  | idle (hrunning : session.isRunning = false) (hwaiting : session.waiting = []) : Turn session none
  | start {line : Line} {rest : List Line} (hevents : session.events = []) (hloading : session.loading = none)
      (hrunning : session.isRunning = false) (hwaiting : session.waiting = line :: rest) :
      Turn session (some ({ session with waiting := rest }.startDirect line))
  | obey (hevents : session.events = []) (hloading : session.loading = none) (hrunning : session.isRunning = true)
      (hbreak : session.keys.breakSeen = true) :
      Turn session (some { session with keys := session.keys.clearBreak }.interrupt)
  | step (hevents : session.events = []) (hloading : session.loading = none) (hrunning : session.isRunning = true)
      (hbreak : session.keys.breakSeen = false) : Turn session (some session.stepOrRaise)

theorem turn_of_turn? {turned : Option Session} (h : session.turn? = turned) : Turn session turned := by
  subst h
  cases hevents : session.events with
  | cons event rest => exact turn?_of_events hevents ▸ .told hevents
  | nil =>
      cases hloading : session.loading with
      | some request => exact turn?_of_loading hloading ▸ .asked hloading
      | none =>
          cases hrunning : session.isRunning with
          | false =>
              cases hwaiting : session.waiting with
              | nil => exact turn?_of_idle hrunning hwaiting ▸ .idle hrunning hwaiting
              | cons line rest =>
                  rw [turn?_of_start hevents hloading hrunning hwaiting]
                  exact .start hevents hloading hrunning hwaiting
          | true =>
              cases hbreak : session.keys.breakSeen with
              | true =>
                  rw [turn?_of_obey hevents hloading hrunning hbreak]
                  exact .obey hevents hloading hrunning hbreak
              | false =>
                  rw [turn?_of_step hevents hloading hrunning hbreak]
                  exact .step hevents hloading hrunning hbreak

/-- A turn is taken where no event waits to be told and no file to come. -/
theorem quiet_of_turn? (h : session.turn? = some next) : session.events = [] ∧ session.loading = none := by
  cases turn_of_turn? h <;> exact ⟨‹_›, ‹_›⟩

/-- What a call reports where its first cycle has nothing to do. -/
def immediate (session : Session) : Event × Session :=
  match session.events, session.loading with
  | event :: rest, _ => (event, { session with events := rest })
  | [], some request => (.load request, session)
  | [], none => (.stopped, session)

/-- The first cycle of a call takes a turn, or the call reports. -/
theorem execute_succ (cycles : Nat) (session : Session) :
    execute (cycles + 1) session =
      match session.turn? with
      | some next => execute cycles next
      | none => session.immediate := by
  rw [execute, turn?, immediate]
  cases session.events with
  | cons event rest => rfl
  | nil =>
      cases session.loading with
      | some request => rfl
      | none =>
          cases session.isRunning with
          | true => cases session.keys.breakSeen <;> rfl
          | false => cases session.waiting <;> rfl

/-- A call that has an event to tell does nothing else. -/
theorem execute_of_events {event : Event} {rest : List Event} (hevents : session.events = event :: rest)
    (cycles : Nat) :
    execute cycles session = (event, { session with events := rest }) := by
  cases cycles with
  | zero =>
      unfold execute
      rw [hevents]
  | succ cycles =>
      rw [execute_succ, turn?_of_events hevents, immediate, hevents]

/-- While a file is awaited, every call asks for it. -/
theorem execute_of_loading {request : LoadRequest} (hevents : session.events = [])
    (hloading : session.loading = some request) (cycles : Nat) :
    execute (cycles + 1) session = (.load request, session) := by
  rw [execute_succ, turn?_of_loading hloading, immediate, hevents, hloading]

/-- A call that finds nothing to do tells that the session has stopped. -/
theorem execute_of_idle (hevents : session.events = []) (hloading : session.loading = none)
    (hrunning : session.isRunning = false) (hwaiting : session.waiting = []) (cycles : Nat) :
    execute (cycles + 1) session = (.stopped, session) := by
  rw [execute_succ, turn?_of_idle hrunning hwaiting, immediate, hevents, hloading]

/-- A call whose cycle has been used up, and that has no event to tell. -/
theorem execute_zero_of_quiet (hevents : session.events = []) :
    execute 0 session = (if session.isRunning || !session.waiting.isEmpty then .running else .stopped, session) := by
  unfold execute
  rw [hevents]
  dsimp only
  split <;> rfl

theorem execute_zero_of_calm (hevents : session.events = []) (hrunning : session.isRunning = true) :
    execute 0 session = (.running, session) := by
  rw [execute_zero_of_quiet hevents, hrunning]
  rfl

/-- A call without cycles and without an event to tell says whether anything is left to do. -/
theorem execute_zero_cases (hevents : session.events = []) :
    execute 0 session = (.running, session) ∨
      session.isRunning = false ∧ session.waiting = [] ∧ execute 0 session = (.stopped, session) := by
  rw [execute_zero_of_quiet hevents]
  split
  · exact .inl rfl
  · rename_i hidle
    simp only [Bool.or_eq_true, Bool.not_eq_true', not_or, Bool.not_eq_true, Bool.not_eq_false,
      List.isEmpty_iff] at hidle
    exact .inr ⟨hidle.1, hidle.2, rfl⟩

/-- A call whose cycles are used up reports as any call would, or it tells that the session runs. A
file that is asked for while nothing runs would be overlooked. -/
theorem execute_zero (hloading : session.loading.isSome → session.isRunning = true) :
    execute 0 session = (.running, session) ∨
      ∀ cycles, execute (cycles + 1) session = execute 0 session := by
  cases hevents : session.events with
  | cons event rest =>
      refine .inr fun cycles => ?_
      rw [execute_of_events hevents, execute_of_events hevents]
  | nil =>
      obtain hruns | ⟨hrunning, hwaiting, hstops⟩ := execute_zero_cases hevents
      · exact .inl hruns
      · have hnone : session.loading = none := by
          rw [← Option.not_isSome_iff_eq_none]
          intro hsome
          rw [hloading hsome] at hrunning
          cases hrunning
        refine .inr fun cycles => ?_
        rw [execute_of_idle hevents hnone hrunning hwaiting, hstops]

theorem loading_settle (outcome : Except Fault Unit × Session) :
    (settle outcome).loading = outcome.2.loading := by
  rcases outcome with ⟨fault | value, after⟩
  · exact (tidy_raise after fault).loading
  · rfl

/-- A statement that asks for a file leaves the session running. -/
theorem isRunning_of_loading {next : Option Statement} {outcome : Except Fault Unit × Session}
    (heffect : Effect next session outcome) (hrunning : session.isRunning = true)
    (hloading : session.loading = none) (hasked : (settle outcome).loading.isSome) :
    (settle outcome).isRunning = true := by
  have hnone : outcome.2.loading ≠ none := by
    rw [← loading_settle]
    exact Option.isSome_iff_ne_none.mp hasked
  cases heffect with
  | ordinary hchanges => exact absurd (hchanges.steady.loading.trans hloading) hnone
  | loads hchanges request => exact hchanges.steady.isRunning.trans hrunning
  | halts htidy _ _ | runs htidy _ => exact absurd (htidy.loading.trans hloading) hnone
  | traps _ _ | rethrows _ | strays _ _ => exact absurd hloading hnone

theorem loading_interrupt (session : Session) : session.interrupt.loading = none := by
  unfold interrupt
  dsimp only
  split
  · exact (tidy_breakOff _).loading
  · rfl

/-- After a turn only a session that runs waits for a file. -/
theorem isRunning_of_turn (hturn : session.turn? = some next) (hasked : next.loading.isSome) :
    next.isRunning = true := by
  cases turn_of_turn? hturn with
  | start => rfl
  | obey =>
      rw [loading_interrupt] at hasked
      cases hasked
  | step hevents hloading hrunning hbreak =>
      have hbegun := steady_begun session
      exact isRunning_of_loading (effect_step hrunning) (hbegun.isRunning.trans hrunning)
        (hbegun.loading.trans hloading) hasked

section Observed

variable (files : String → Except Fault (List UInt8))

/-- A report that the session runs on is not one that a host takes note of. -/
def noted : Event × Session → List (Event × Session)
  | (.running, _) => []
  | reported => [reported]

/-- The host answers a request for a file. -/
def answered : Event × Session → Session
  | (.load request, after) => after.completeLoad (files request.path)
  | (_, after) => after

/-- What a host takes note of that makes calls with the given numbers of cycles: the events, each with
the session right after it. -/
def observed : List Nat → Session → List (Event × Session)
  | [], _ => []
  | cycles :: rest, session =>
      noted (execute cycles session) ++ observed rest (answered files (execute cycles session))

theorem observed_append (first rest : List Nat) (session : Session) :
    observed files first session <+: observed files (first ++ rest) session := by
  induction first generalizing session with
  | nil => exact List.nil_prefix
  | cons cycles first ih =>
      rw [List.cons_append, observed, observed]
      exact (List.prefix_append_right_inj _).mpr (ih _)

theorem observed_of_le {count total : Nat} (h : count ≤ total) (session : Session) :
    observed files (List.replicate count 1) session <+:
      observed files (List.replicate total 1) session := by
  have hsplit : List.replicate total 1 = List.replicate count 1 ++ List.replicate (total - count) 1 := by
    rw [List.replicate_append_replicate, Nat.add_sub_cancel' h]
  rw [hsplit]
  exact observed_append files _ _ session

/-- Some number of calls of one cycle each shows the same. There are at least as many of them, and no
more than there were cycles. -/
def ShowsAsOnes (budgets : List Nat) (session : Session) : Prop :=
  ∃ count, budgets.length ≤ count ∧ count ≤ budgets.sum ∧
    observed files budgets session = observed files (List.replicate count 1) session

variable {files}

theorem ShowsAsOnes.cons_of_eq {cycles : Nat} {rest : List Nat}
    (hrest : ∀ session, ShowsAsOnes files rest session) (hcycles : 1 ≤ cycles)
    (h : execute cycles session = execute 1 session) :
    ShowsAsOnes files (cycles :: rest) session := by
  obtain ⟨count, hlength, hsum, heq⟩ := hrest (answered files (execute cycles session))
  refine ⟨count + 1, Nat.succ_le_succ hlength, ?_, ?_⟩
  · rw [List.sum_cons]
    omega
  · rw [List.replicate_succ, observed, observed, heq, h]

/-- A call of one cycle that takes a turn and has nothing to tell is not noted. -/
theorem observed_of_turn (hturn : session.turn? = some next)
    (hruns : execute 0 next = (.running, next)) (rest : List Nat) :
    observed files (1 :: rest) session = observed files rest next := by
  have hcall : execute 1 session = (.running, next) := by
    rw [execute_succ, hturn]
    exact hruns
  rw [observed, hcall]
  rfl

theorem ShowsAsOnes.cons {rest : List Nat} (hrest : ∀ session, ShowsAsOnes files rest session)
    (cycles : Nat) (session : Session) : ShowsAsOnes files ((cycles + 1) :: rest) session := by
  induction cycles generalizing session with
  | zero => exact .cons_of_eq hrest (Nat.le_refl 1) rfl
  | succ cycles ih =>
      cases hturn : session.turn? with
      | none =>
          apply ShowsAsOnes.cons_of_eq hrest (Nat.le_add_left 1 _)
          rw [execute_succ, execute_succ, hturn]
      | some next =>
          have hcall : ∀ cycles, execute (cycles + 1) session = execute cycles next := by
            intro cycles
            rw [execute_succ, hturn]
          rcases execute_zero (isRunning_of_turn hturn) with hruns | hsame
          · -- The call of one cycle tells nothing, and what is left of the call is shorter.
            obtain ⟨count, hlength, hsum, heq⟩ := ih next
            refine ⟨count + 1, ?_, ?_, ?_⟩
            · exact Nat.le_succ_of_le hlength
            · rw [List.sum_cons] at hsum ⊢
              omega
            · rw [List.replicate_succ, observed_of_turn hturn hruns, ← heq, observed, observed,
                hcall]
          · apply ShowsAsOnes.cons_of_eq hrest (Nat.le_add_left 1 _)
            rw [hcall, hcall, hsame]

variable (files)

theorem showsAsOnes {budgets : List Nat} (h : ∀ cycles ∈ budgets, 1 ≤ cycles)
    (session : Session) : ShowsAsOnes files budgets session := by
  induction budgets generalizing session with
  | nil => exact ⟨0, Nat.le_refl 0, Nat.le_refl 0, rfl⟩
  | cons cycles rest ih =>
      have hrest : ∀ session, ShowsAsOnes files rest session :=
        ih fun cycles hmem => h cycles (List.mem_cons_of_mem _ hmem)
      obtain ⟨fewer, rfl⟩ := Nat.exists_eq_add_of_le' (h cycles List.mem_cons_self)
      exact .cons hrest fewer session

/-- **The sizes of the calls do not show.** Whatever numbers of cycles two hosts give their calls, as
long as each call has one, they observe the same events and the same session right after each, as far
as both have come; and a host that makes as many calls as the other gives cycles has come as far. -/
theorem observed_agree {first second : List Nat} (session : Session)
    (hfirst : ∀ cycles ∈ first, 1 ≤ cycles) (hsecond : ∀ cycles ∈ second, 1 ≤ cycles) :
    (observed files first session <+: observed files second session ∨
      observed files second session <+: observed files first session) ∧
    (first.sum ≤ second.length → observed files first session <+: observed files second session) := by
  obtain ⟨count, -, hcount, hones⟩ := showsAsOnes files hfirst session
  obtain ⟨total, htotal, -, hothers⟩ := showsAsOnes files hsecond session
  rw [hones, hothers]
  constructor
  · exact (Nat.le_total count total).imp (observed_of_le files · session)
      (observed_of_le files · session)
  · intro hfar
    have hle : count ≤ total := Nat.le_trans hcount (Nat.le_trans hfar htotal)
    exact observed_of_le files hle session

end Observed

/-- A run that goes on in another program, with a line that waits for its end. -/
def beforeLoad : Session :=
  afterCalls [.enter "10 PRINT 1", .enter "20 LOAD \"NEXT\",R", .enter "RUN", .enter "PRINT 3"]

/-- A disk that holds the other program. -/
def nextOnDisk (path : String) : Except Fault (List UInt8) :=
  if path = "NEXT" then .ok "10 PRINT 2".toUTF8.toList else .error (.of .fileNotFound)

theorem observed_agree_beforeLoad :
    observed nextOnDisk [3, 1, 2, 5, 1, 4, 4] beforeLoad <+:
        observed nextOnDisk (List.replicate 20 1) beforeLoad ∧
      (observed nextOnDisk [3, 1, 2, 5, 1, 4, 4] beforeLoad).map Prod.fst =
        [.print " 1 \n", .load ⟨"NEXT", .load true⟩, .print " 2 \n", .print " 3 \n", .stopped] := by
  have hones : ∀ cycles ∈ List.replicate 20 1, 1 ≤ cycles := by decide
  have hsizes : ∀ cycles ∈ [3, 1, 2, 5, 1, 4, 4], 1 ≤ cycles := by decide
  obtain ⟨-, hfar⟩ := observed_agree nextOnDisk beforeLoad hsizes hones
  refine ⟨hfar (by decide), ?_⟩
  rw [beforeLoad, Session.afterCalls_eq]
  decide +kernel

end Session

end LineBasic
