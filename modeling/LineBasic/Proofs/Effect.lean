import LineBasic.Proofs.Moves
import LineBasic.Proofs.Stack

/-! What a statement can do to a session. Most statements are sequences of small changes, each to one
part of the session: they leave the run state, the error handler and the file that is asked for
alone. The few that do not are told apart by what they do to the course of the run. -/

namespace LineBasic

/-- Whether the event reports faults. -/
def Event.isFaults : Event → Bool
  | .faults _ => true
  | _ => false

theorem filter_isFaults_appendPrint (text : String) (events : List Event) :
    (appendPrint text events).filter Event.isFaults = events.filter Event.isFaults := by
  fun_induction appendPrint text events with
  | case1 => rfl
  | case2 before => rfl
  | case3 event rest _ ih => rw [List.filter_cons, List.filter_cons, ih]

theorem Program.start_eq_error {program : Program} {number : Nat} {fault : Fault}
    (h : program.start number = .error fault) :
    program.lines.contains number = false ∧ fault = .of .undefinedLineNumber := by
  unfold start at h
  split at h
  · cases h
  · rename_i hcontains
    cases h
    exact ⟨Bool.eq_false_iff.mpr hcontains, rfl⟩

/-- Whether the command neither turns the course of a run, nor asks for a file, nor moves the DATA
position. -/
def Command.isOrdinary : Command → Bool
  | auto _ _ | chain _ _ _ | clear _ | cont | finish | load _ _ | merge _ | new | onError _ | read _
  | restore _ | resume _ | run _ | stop => false
  | _ => true

namespace Session

/-- A small change, to one part of a session. -/
inductive Change : Session → Session → Prop
  | work (session : Session) (work : Workspace) (h : work.depth = session.work.depth) :
      Change session { session with work }
  | cursor (session : Session) (cursor : Option Cursor) : Change session { session with cursor }
  | push {session : Session} {frame : Frame} {stack : Stack Frame}
      (h : session.stack.push frame = .ok stack) : Change session { session with stack }
  | truncate (session : Session) (count : Nat) :
      Change session { session with stack := session.stack.truncate count }
  | print (session : Session) (text : String) : Change session (session.print text)
  | files (session : Session) (pattern : String) : Change session (session.report (.files pattern))
  | column (session : Session) (column : Nat) : Change session { session with column }
  | functions (session : Session) (functions : Std.TreeMap String UserFunction) :
      Change session { session with functions }
  | gather (session : Session) :
      Change session { session with data := some (session.data.getD session.program.data) }
  | dataPosition (session : Session) (dataPosition : Nat) :
      Change session { session with dataPosition }
  | keys (session : Session) (label text : String) :
      Change session { session with keys := session.keys.assign label text }
  | display (session : Session) (tracing : Bool) (screen color : List Int16)
      (palette : Std.TreeMap Int16 Int16) :
      Change session
        { session with settings := { session.settings with tracing, screen, color, palette } }

/-- A sequence of small changes. -/
abbrev Changes : Session → Session → Prop := Relation.ReflTransGen Change

/-- Preorders of sessions that let loops and subroutines be closed and let the session go on elsewhere. -/
class AllowsClosing (R : Session → Session → Prop) : Prop extends AllowsEval R where
  cursor : ∀ (session : Session) (cursor : Option Cursor), R session { session with cursor }
  truncate : ∀ (session : Session) (count : Nat), R session { session with stack := session.stack.truncate count }

/-- Preorders of sessions that let every part change that a small change may, the DATA position apart. -/
class AllowsChange (R : Session → Session → Prop) : Prop extends IsPreorder Session R where
  change : ∀ {session after : Session}, Change session after →
    after.dataPosition = session.dataPosition → R session after

instance {R : Session → Session → Prop} [AllowsChange R] : AllowsClosing R where
  withWork session work h := AllowsChange.change (.work session work h) rfl
  cursor session cursor := AllowsChange.change (.cursor session cursor) rfl
  truncate session count := AllowsChange.change (.truncate session count) rfl

instance : AllowsChange Changes where
  refl _ := .refl
  trans _ _ _ h h' := h.trans h'
  change h _ := .single h

/-- No file was asked for, no call was left open, and the stack stays within its limit. -/
structure Tidy (session after : Session) : Prop where
  loading : after.loading = session.loading
  depth : after.work.depth = session.work.depth
  size : session.stack.size ≤ Stack.maxSize → after.stack.size ≤ Stack.maxSize

/-- The program, the run state and the error handler are the same, and no fault was reported. -/
structure Steady (session after : Session) : Prop extends Tidy session after where
  program : after.program = session.program
  state : after.state = session.state
  current : after.current = session.current
  onError : after.settings.onError = session.settings.onError
  resume : after.settings.resume = session.settings.resume
  faultCode : after.settings.faultCode = session.settings.faultCode
  faultLine : after.settings.faultLine = session.settings.faultLine
  faults : after.events.filter Event.isFaults = session.events.filter Event.isFaults

theorem Steady.refl (session : Session) : Steady session session where
  loading := rfl
  depth := rfl
  size := id
  program := rfl
  state := rfl
  current := rfl
  onError := rfl
  resume := rfl
  faultCode := rfl
  faultLine := rfl
  faults := rfl

theorem Steady.trans {first second third : Session} (h : Steady first second)
    (h' : Steady second third) : Steady first third where
  loading := h'.loading.trans h.loading
  depth := h'.depth.trans h.depth
  size := h'.size ∘ h.size
  program := h'.program.trans h.program
  state := h'.state.trans h.state
  current := h'.current.trans h.current
  onError := h'.onError.trans h.onError
  resume := h'.resume.trans h.resume
  faultCode := h'.faultCode.trans h.faultCode
  faultLine := h'.faultLine.trans h.faultLine
  faults := h'.faults.trans h.faults

theorem Steady.isRunning {session after : Session} (h : Steady session after) :
    after.isRunning = session.isRunning := by
  unfold Session.isRunning
  rw [h.state]

theorem Change.steady {session after : Session} (h : Change session after) :
    Steady session after := by
  have hself := Steady.refl session
  cases h with
  | work work hdepth => exact { hself with depth := hdepth }
  | push hpush => exact { hself with size := fun _ => Stack.size_le_of_push hpush }
  | truncate count =>
      exact { hself with size := Nat.le_trans (Stack.size_truncate_le session.stack count) }
  | print text => exact { hself with faults := filter_isFaults_appendPrint text session.events }
  | files pattern =>
      refine { hself with faults := ?_ }
      exact (List.filter_append _ _).trans (List.append_nil _)
  | cursor | column | functions | gather | dataPosition | keys | display => exact { hself with }

theorem Changes.steady {session after : Session} (h : Changes session after) :
    Steady session after := by
  induction h with
  | refl => exact .refl session
  | tail _ hlast ih => exact ih.trans hlast.steady

end Session

namespace SessionAct

open Act Session

section Closing

variable {R : Session → Session → Prop} [AllowsClosing R]

theorem relates_goOnAt (cursor : Option Cursor) : Relates R (goOnAt cursor) :=
  fun session => AllowsClosing.cursor session cursor

theorem relates_goto (line : Nat) : Relates R (goto line) :=
  (relates_lineStart line).bind fun _ => relates_goOnAt _

theorem relates_popFrame : Relates R popFrame := by
  refine relates_get_bind fun session => ?_
  rw [outcome_bind, outcome_lift]
  cases hpop : session.stack.pop with
  | error fault => exact refl_of R session
  | ok popped =>
      obtain ⟨entry, stack⟩ := popped
      rw [Stack.eq_truncate_of_pop hpop]
      exact AllowsClosing.truncate session _

/-- Frames are taken off the stack before something else is done. -/
theorem relates_truncate_bind {α : Type} {next : Unit → SessionAct α} (session : Session)
    (count : Nat) (hnext : Relates R (next ⟨⟩)) :
    R session ((setStack (session.stack.truncate count) >>= next).outcome session).2 :=
  trans_of R (AllowsClosing.truncate session count) (hnext _)

theorem relates_returnTo (line : Option Nat) : Relates R (returnTo line) := by
  refine relates_get_bind fun session => ?_
  dsimp only
  split
  · exact refl_of R session
  · refine relates_truncate_bind session _ (relates_popFrame.bind fun frame => ?_)
    cases frame with
    | forLoop _ _ _ _ | whileLoop _ => exact relates_throw _
    | gosub back =>
        cases line with
        | none => exact relates_goOnAt back
        | some number => exact relates_goto number

theorem relates_skipLoop : Relates R skipLoop := by
  refine relates_get.bind fun session => ?_
  split
  · exact relates_goOnAt _
  · exact relates_throw _

theorem relates_nextOne (counter : Option Name) : Relates R (nextOne counter) := by
  refine relates_get_bind fun session => relates_truncate_bind session _ ?_
  split
  · rename_i name limit step body _
    refine relates_get.bind fun _ => (relates_lift _).bind fun sum => ?_
    refine (relates_storeScalar name sum).bind fun _ => ?_
    refine (relates_isOver name limit step).bind fun finished => ?_
    split
    · exact relates_popFrame.bind fun _ => relates_pure _
    · exact (relates_goOnAt body).bind fun _ => relates_pure _
  · exact relates_throw _

theorem relates_nextEach (counters : List Name) : Relates R (nextEach counters) := by
  induction counters with
  | nil => exact relates_pure _
  | cons counter rest ih =>
      refine (relates_nextOne (some counter)).bind fun goesOn => ?_
      split
      · exact relates_pure _
      · exact ih

theorem relates_next (counters : List Name) : Relates R (next counters) := by
  unfold next
  split
  · exact (relates_nextOne none).bind fun _ => relates_pure _
  · exact relates_nextEach counters

theorem relates_wend : Relates R wend := by
  refine relates_get.bind fun session => ?_
  split
  · exact relates_popFrame.bind fun _ => relates_goOnAt _
  · exact relates_throw _

end Closing

/-- FOR closes an open loop over its counter by a cut through the stack. -/
theorem closeSameLoop_eq_truncate (stack : Stack Frame) (counter : Name) :
    closeSameLoop stack counter = stack ∨
      ∃ count, closeSameLoop stack counter = stack.truncate count := by
  unfold closeSameLoop
  cases stack.lastIndex? (Frame.countsOver counter) with
  | none => exact .inl rfl
  | some index =>
      cases stack.lastIndex? Frame.isGosub <;> dsimp only <;> split
      · exact .inr ⟨index, rfl⟩
      · exact .inl rfl
      · exact .inr ⟨index, rfl⟩
      · exact .inl rfl

section Changes

variable {R : Session → Session → Prop} [AllowsChange R]

theorem relates_pushFrame (frame : Frame) : Relates R (pushFrame frame) := by
  refine relates_get_bind fun session => ?_
  rw [outcome_bind, outcome_lift]
  cases hpush : session.stack.push frame with
  | error fault => exact refl_of R session
  | ok stack => exact AllowsChange.change (.push hpush) rfl

theorem relates_gosub (line : Nat) : Relates R (gosub line) := by
  refine (relates_lineStart line).bind fun start => relates_get.bind fun session => ?_
  refine (relates_goOnAt none).bind fun _ => (relates_pushFrame _).bind fun _ => ?_
  exact relates_goOnAt _

theorem relates_openLoop (counter : Name) (last change : Value) : Relates R (openLoop counter last change) := by
  intro session
  have hclosed : R session { session with stack := closeSameLoop session.stack counter } := by
    rcases closeSameLoop_eq_truncate session.stack counter with hsame | ⟨count, hcut⟩
    · rw [hsame]
      exact refl_of R session
    · rw [hcut]
      exact AllowsClosing.truncate session count
  rw [outcome_openLoop]
  split
  · exact refl_of R session
  · split
    · exact hclosed
    · exact trans_of R hclosed (relates_skipLoop _)
    · exact trans_of R hclosed (relates_pushFrame _ _)

theorem relates_forLoop (counter : Name) (start limit : Expr) (step : Option Expr) :
    Relates R (forLoop counter start limit step) := by
  by_cases htype : counter.type = .text
  · rw [forLoop_of_text htype]
    exact relates_throw _
  · rw [forLoop_eq htype]
    refine (relates_eval start).bind fun first => (relates_storeScalar counter first).bind fun _ => ?_
    exact (relates_bounds limit step).bind fun values => relates_openLoop counter values.1 values.2

theorem relates_whileLoop (condition : Expr) : Relates R (whileLoop condition) := by
  refine (relates_eval condition).bind fun value => (relates_lift _).bind fun holds => ?_
  split
  · exact relates_get.bind fun _ => relates_pushFrame _
  · refine relates_get.bind fun session => ?_
    split
    · exact relates_goOnAt _
    · exact relates_throw _

theorem relates_choose (condition : Expr) : Relates R (choose condition) := by
  refine (relates_eval condition).bind fun value => (relates_lift _).bind fun holds => ?_
  refine relates_get.bind fun session => ?_
  split
  · exact relates_goOnAt _
  · exact relates_pure _

theorem relates_onGoto (selector : Expr) (lines : List Nat) :
    Relates R (command (.onGoto selector lines)) := by
  refine (relates_selected selector lines).bind fun target => ?_
  cases target with
  | none => exact relates_pure _
  | some line => exact relates_goto line

theorem relates_onGosub (selector : Expr) (lines : List Nat) :
    Relates R (command (.onGosub selector lines)) := by
  refine (relates_selected selector lines).bind fun target => ?_
  cases target with
  | none => exact relates_pure _
  | some line => exact relates_gosub line

theorem relates_raiseCode (code : Expr) : Relates R (raiseCode code) := by
  refine (relates_evalInt code).bind fun n => ?_
  split <;> exact relates_throw _

theorem relates_assignKey (number text : Expr) : Relates R (assignKey number text) := by
  refine (relates_evalInt number).bind fun n => ?_
  split
  · refine (relates_evalText text).bind fun whole => ?_
    exact fun session => AllowsChange.change (.keys session _ _) rfl
  · exact relates_throw _

theorem relates_palette (arguments : List (Option Expr)) :
    Relates R (palette arguments) := by
  refine (relates_evalInts arguments).bind fun values => ?_
  split
  · exact fun session => AllowsChange.change (.display session _ _ _ _) rfl
  · exact fun session => AllowsChange.change (.display session _ _ _ _) rfl
  · exact relates_throw _

theorem relates_printItems (items : List PrintItem) : Relates R (printItems items) := by
  refine relates_get.bind fun session => (relates_printText _ _ items).bind fun text => ?_
  exact fun session => AllowsChange.change (.print session _) rfl

theorem relates_dataItems : Relates R dataItems :=
  relates_get_bind fun session => AllowsChange.change (.gather session) rfl

theorem relates_files (pattern : Option Expr) : Relates R (command (.files pattern)) := by
  have hreport : ∀ text, Relates R
      (modify fun session : Session => session.report (.files text) : SessionAct Unit) :=
    fun text session => AllowsChange.change (.files session text) rfl
  cases pattern with
  | none => exact (relates_pure _).bind hreport
  | some expr => exact (relates_evalText expr).bind hreport

theorem relates_list (first last : Option Nat) : Relates R (command (.list first last)) := by
  refine relates_get_bind fun session => ?_
  rw [outcome_bind, outcome_lift]
  cases session.program.list first last with
  | error fault => exact refl_of R session
  | ok text => exact AllowsChange.change (.print session text) rfl

/-- **Every ordinary command is a sequence of small changes**, none of them to the DATA position. -/
theorem relates_command {c : Command} (h : c.isOrdinary = true) : Relates R (command c) := by
  cases c with
  | beep => exact fun session => AllowsChange.change (.print session _) rfl
  | clearScreen => exact fun session => AllowsChange.change (.column session _) rfl
  | define _ _ _ => exact fun session => AllowsChange.change (.functions session _) rfl
  | traceOff | traceOn => exact fun session => AllowsChange.change (.display session _ _ _ _) rfl
  | common _ | data _ | remark _ => exact relates_pure _
  | color arguments | screen arguments =>
      refine (relates_evalInts arguments).bind fun _ => ?_
      exact fun session => AllowsChange.change (.display session _ _ _ _) rfl
  | locate arguments => exact (relates_evalInts arguments).bind fun _ => relates_pure _
  | dim targets => exact relates_dim targets
  | error code => exact relates_raiseCode code
  | files pattern => exact relates_files pattern
  | forLoop counter start limit step => exact relates_forLoop counter start limit step
  | gosub line => exact relates_gosub line
  | goto line => exact relates_goto line
  | key number text => exact relates_assignKey number text
  | assign target value => exact (relates_eval value).bind fun result => relates_store target result
  | list first last => exact relates_list first last
  | next counters => exact relates_next counters
  | onGoto selector lines => exact relates_onGoto selector lines
  | onGosub selector lines => exact relates_onGosub selector lines
  | palette arguments => exact relates_palette arguments
  | print items => exact relates_printItems items
  | returnTo line => exact relates_returnTo line
  | wend => exact relates_wend
  | whileLoop condition => exact relates_whileLoop condition
  | auto | chain | clear | cont | finish | load | merge | new | onError | read | restore | resume
  | run | stop => cases h

end Changes

theorem changes_readItem (target : Variable) : Relates Changes (readItem target) := by
  refine relates_dataItems.bind fun items => relates_get_bind fun session => ?_
  split
  · exact .refl
  · refine .head (.dataPosition session (session.dataPosition + 1)) ?_
    rw [outcome_bind, outcome_set]
    dsimp only
    split
    · exact .refl
    · split
      · split
        · exact .refl
        · split <;> exact .refl
      · exact .refl

theorem changes_read (targets : List Variable) : Relates Changes (read targets) := by
  induction targets with
  | nil => exact relates_pure _
  | cons target rest ih =>
      refine (changes_readItem target).bind fun value => ?_
      exact (relates_store target value).bind fun _ => ih

theorem changes_restore (line : Option Nat) : Relates Changes (restore line) := by
  have hmove : ∀ position, Relates Changes
      (modify fun session : Session => { session with dataPosition := position } : SessionAct Unit) :=
    fun position session => .single (.dataPosition session position)
  unfold restore
  refine (hmove 0).bind fun _ => ?_
  cases line with
  | none => exact relates_pure _
  | some number =>
      refine (relates_lineStart number).bind fun _ => ?_
      exact relates_dataItems.bind fun _ => hmove _

end SessionAct

namespace Session

/-- The session once its error handler is left. -/
def leaveHandler (session : Session) : Session :=
  { session with
    state := .running
    settings := { session.settings with resume := none } }

/-- The session once its error handler is taken back inside of it. -/
def dropHandler (session : Session) : Session :=
  { session with
    state := .running
    settings := { session.settings with onError := none } }

/-- What carrying out the next statement, or ending the program where none is left, can do to the
course of a run. -/
inductive Effect (next : Option Statement) (session : Session) : Except Fault Unit × Session → Prop
  /-- The run state, the error handler and the requested file are left alone. -/
  | ordinary {outcome : Except Fault Unit × Session} (h : Changes session outcome.2) :
      Effect next session outcome
  /-- A file is asked for. -/
  | loads {after : Session} (h : Changes session after) (request : LoadRequest) :
      Effect next session (.ok ⟨⟩, { after with loading := some request })
  /-- The error handler is set, or taken back outside of it. -/
  | traps (line : Option Nat) (h : line = none → session.state ≠ .trapped) :
      Effect next session
        (.ok ⟨⟩, { session with settings := { session.settings with onError := line } })
  | halts {after : Session} (h : Tidy session after) (hstate : after.isRunning = false)
      (hcursor : after.cursor = none) : Effect next session (.ok ⟨⟩, after)
  /-- The run goes on, and no fault is being handled. -/
  | runs {after : Session} (h : Tidy session after) (hstate : after.state = .running) :
      Effect next session (.ok ⟨⟩, after)
  /-- The fault that is being handled is raised again, and its handler is gone. -/
  | rethrows (hstate : session.state = .trapped) :
      Effect next session
        (.error ⟨session.settings.faultCode, session.settings.faultLine, ""⟩, session.dropHandler)
  /-- The handler is left for a line that is missing. -/
  | strays {line : Nat} (hnext : next = some (.command (.resume (.line line))))
      (hstate : session.state = .trapped) :
      Effect next session (.error (.of .undefinedLineNumber), session.leaveHandler)

theorem tidy_clear (session : Session) : Tidy session session.clear where
  loading := rfl
  depth := rfl
  size _ := Nat.zero_le _

theorem tidy_breakOff (session : Session) : Tidy session session.breakOff := by
  unfold breakOff
  split <;> exact ⟨rfl, rfl, id⟩

theorem isRunning_breakOff (session : Session) : session.breakOff.isRunning = false := by
  unfold breakOff
  split <;> rfl

theorem cursor_breakOff (session : Session) : session.breakOff.cursor = none := by
  unfold breakOff
  split <;> rfl

end Session

namespace SessionAct

open Act Session

variable {session : Session} {next : Option Statement}

theorem outcome_lineStart (session : Session) (line : Nat) :
    (lineStart line).outcome session = (session.program.start line, session) := rfl

theorem outcome_goto (session : Session) (line : Nat) :
    (goto line).outcome session =
      match session.program.start line with
      | .ok cursor => (.ok ⟨⟩, { session with cursor := some cursor })
      | .error fault => (.error fault, session) := by
  unfold goto
  rw [outcome_bind, outcome_lineStart]
  cases session.program.start line <;> rfl

/-- An effect after an expression was evaluated, if that did not fail. -/
theorem effect_of_bind {α : Type} {action : SessionAct α} {rest : α → SessionAct Unit}
    (h : Relates Changes action)
    (hrest : ∀ value after, Changes session after →
      Effect next session ((rest value).outcome after)) :
    Effect next session ((action >>= rest).outcome session) := by
  have hfirst := h session
  rw [outcome_bind]
  revert hfirst
  rcases action.outcome session with ⟨fault | value, after⟩
  · intro hchanges
    dsimp only
    exact .ordinary hchanges
  · exact hrest value after

theorem effect_requestLoad (path : Expr) (kind : LoadKind) :
    Effect next session ((requestLoad path kind).outcome session) :=
  effect_of_bind (relates_evalText path) fun text _ hchanges => .loads hchanges ⟨text, kind⟩

theorem effect_clear (hrunning : session.isRunning = true) (arguments : List (Option Expr)) :
    Effect next session ((command (.clear arguments)).outcome session) := by
  refine effect_of_bind (relates_evalInts arguments) fun _ after hchanges => ?_
  have hsteady := hchanges.steady
  have hclear := tidy_clear after
  refine .runs ⟨hclear.loading.trans hsteady.loading, hclear.depth.trans hsteady.depth,
    hclear.size ∘ hsteady.size⟩ ?_
  change (if after.state = .trapped then RunState.running else after.state) = .running
  rw [hsteady.state]
  revert hrunning
  unfold isRunning
  cases session.state <;> decide

theorem effect_cont : Effect next session (cont.outcome session) := by
  unfold cont
  rw [outcome_bind, outcome_get]
  dsimp only
  split
  · exact .runs ⟨rfl, rfl, id⟩ rfl
  · exact .ordinary .refl

theorem effect_finish : Effect next session (finish.outcome session) := by
  unfold finish
  rw [outcome_bind, outcome_get]
  dsimp only
  split
  · exact .ordinary .refl
  · exact .halts ⟨rfl, rfl, id⟩ rfl rfl

theorem effect_onError (line : Nat) : Effect next session ((onError line).outcome session) := by
  unfold onError
  split
  · rw [outcome_bind]
    change Effect next session (outcome (get >>= _)
      { session with settings := { session.settings with onError := none } })
    rw [outcome_bind, outcome_get]
    dsimp only
    split
    · exact .rethrows ‹_›
    · exact .traps none fun _ => ‹_›
  · rw [outcome_bind, outcome_lineStart]
    cases session.program.start line with
    | error fault => exact .ordinary .refl
    | ok start => exact .traps (some line) fun h => nomatch h

/-- RESUME leaves the handler before it looks for the place to go on. -/
theorem outcome_resume {failed : Cursor} (hstate : session.state = .trapped)
    (hresume : session.settings.resume = some failed) (target : ResumeAt) :
    (resume target).outcome session =
      (match target with
        | .retry => goOnAt (some failed)
        | .next => goOnAt (session.program.advance? failed)
        | .line number => goto number).outcome session.leaveHandler := by
  unfold resume
  rw [outcome_bind, outcome_get]
  dsimp only
  rw [hstate, hresume]
  cases target <;> rfl

/-- RESUME fails outside of a handler. -/
theorem outcome_resume_of_not (h : ¬(session.state = .trapped ∧ session.settings.resume.isSome))
    (target : ResumeAt) :
    (resume target).outcome session = (.error (.of .resumeWithoutError), session) := by
  unfold resume
  rw [outcome_bind, outcome_get]
  dsimp only
  split
  · rename_i failed hstate hresume
    exact absurd ⟨hstate, hresume ▸ rfl⟩ h
  · rfl

theorem effect_resume (target : ResumeAt) :
    Effect (some (.command (.resume target))) session ((resume target).outcome session) := by
  by_cases htrapped : session.state = .trapped ∧ session.settings.resume.isSome
  · obtain ⟨hstate, hsome⟩ := htrapped
    obtain ⟨failed, hresume⟩ := Option.isSome_iff_exists.mp hsome
    rw [outcome_resume hstate hresume]
    cases target with
    | retry => exact .runs ⟨rfl, rfl, id⟩ rfl
    | next => exact .runs ⟨rfl, rfl, id⟩ rfl
    | line number =>
        dsimp only
        rw [outcome_goto]
        cases hstart : session.leaveHandler.program.start number with
        | ok cursor => exact .runs ⟨rfl, rfl, id⟩ rfl
        | error fault =>
            rw [(Program.start_eq_error hstart).2]
            exact .strays rfl hstate
  · rw [outcome_resume_of_not htrapped]
    exact .ordinary .refl

theorem effect_run (line : Option Nat) : Effect next session ((run line).outcome session) := by
  cases line with
  | none => exact .runs ⟨rfl, rfl, fun _ => Nat.zero_le _⟩ rfl
  | some number =>
      unfold run
      dsimp only
      rw [outcome_bind, outcome_map, outcome_lineStart]
      cases session.program.start number with
      | error fault => exact .ordinary .refl
      | ok start => exact .runs ⟨rfl, rfl, fun _ => Nat.zero_le _⟩ rfl

/-- **What a command does to the course of a run.** -/
theorem effect_command (hrunning : session.isRunning = true) (c : Command) :
    Effect (some (.command c)) session ((command c).outcome session) := by
  by_cases hc : c.isOrdinary = true
  · exact .ordinary (relates_command hc session)
  · cases c with
    | auto _ _ => exact .halts ⟨rfl, rfl, id⟩ rfl rfl
    | chain path _ _ | load path _ | merge path => exact effect_requestLoad path _
    | clear arguments => exact effect_clear hrunning arguments
    | cont => exact effect_cont
    | finish => exact effect_finish
    | new => exact .halts ⟨rfl, rfl, fun _ => Nat.zero_le _⟩ rfl rfl
    | onError line => exact effect_onError line
    | read targets => exact .ordinary (changes_read targets session)
    | restore line => exact .ordinary (changes_restore line session)
    | resume target => exact effect_resume target
    | run line => exact effect_run line
    | stop =>
        exact .halts (tidy_breakOff session) (isRunning_breakOff session) (cursor_breakOff session)
    | _ => exact absurd rfl hc

theorem effect_statement (hrunning : session.isRunning = true) (next : Statement) :
    Effect (some next) session ((statement next).outcome session) := by
  cases next with
  | command c => exact effect_command hrunning c
  | choice condition _ _ => exact .ordinary (relates_choose condition session)

theorem effect_endOfProgram : Effect next session (endOfProgram.outcome session) := by
  unfold endOfProgram
  rw [outcome_bind, outcome_get]
  dsimp only
  split
  · exact .ordinary .refl
  · exact .halts ⟨rfl, rfl, id⟩ rfl rfl

end SessionAct

namespace Session

open Act SessionAct

/-- The session as its next statement finds it. -/
def begun (session : Session) : Session :=
  match session.nextStatement?, session.cursor with
  | some _, some cursor => beginStatement { session with cursor := none } cursor
  | _, _ => { session with cursor := none }

theorem begun_of_some {session : Session} {cursor : Cursor} {next : Statement}
    (hcursor : session.cursor = some cursor) (hnext : session.nextStatement? = some next) :
    session.begun = beginStatement { session with cursor := none } cursor := by
  unfold begun
  rw [hnext, hcursor]

theorem begun_of_none {session : Session} (hnext : session.nextStatement? = none) :
    session.begun = { session with cursor := none } := by
  unfold begun
  rw [hnext]

theorem current_begun {session : Session} {cursor : Cursor} {next : Statement} (hcursor : session.cursor = some cursor)
    (hnext : session.nextStatement? = some next) : session.begun.current = cursor := by
  rw [begun_of_some hcursor hnext]
  rfl

theorem exists_cursor {session : Session} {next : Statement}
    (hnext : session.nextStatement? = some next) :
    ∃ cursor, session.cursor = some cursor ∧ session.program.statement? cursor = some next :=
  Option.bind_eq_some_iff.mp hnext

/-- Nothing but the place in the program differs before a statement is carried out. -/
theorem steady_begun (session : Session) :
    Steady { session with current := session.begun.current } session.begun := by
  cases hnext : session.nextStatement? with
  | none =>
      rw [begun_of_none hnext]
      exact { Steady.refl session with }
  | some next =>
      obtain ⟨cursor, hcursor, -⟩ := exists_cursor hnext
      rw [begun_of_some hcursor hnext]
      have hself := Steady.refl { session with current := cursor }
      unfold beginStatement
      cases traceText { session with cursor := none } cursor with
      | none => exact { hself with }
      | some text =>
          exact { hself with faults := filter_isFaults_appendPrint text session.events }

theorem outcome_step {session : Session} {next : Statement}
    (hnext : session.nextStatement? = some next) :
    step.outcome session = (statement next).outcome session.begun := by
  obtain ⟨cursor, hcursor, hstatement⟩ := exists_cursor hnext
  rw [outcome_step_of_some hcursor hstatement, begun_of_some hcursor hnext]

/-- **What a step does to the course of a run**, before a fault is handled. -/
theorem effect_step {session : Session} (hrunning : session.isRunning = true) :
    Effect session.nextStatement? session.begun (step.outcome session) := by
  cases hnext : session.nextStatement? with
  | none =>
      rw [outcome_step_of_none hnext, begun_of_none hnext]
      exact effect_endOfProgram
  | some next =>
      rw [outcome_step hnext]
      exact effect_statement ((steady_begun session).isRunning.trans hrunning) next

end Session

end LineBasic
