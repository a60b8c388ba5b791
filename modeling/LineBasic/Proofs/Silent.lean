import LineBasic.Proofs.Effect

/-! What no statement sees. Tracing prints, and what is printed moves the column and adds to the events;
but the column only decides about more text to print, and nothing that a statement computes, stores or
decides depends on either. So every statement does the same in a session that is set back in these parts. -/

namespace LineBasic

/-- Whether the event is printed text. -/
def Event.isPrint : Event → Bool
  | .print _ => true
  | _ => false

namespace Session

/-- The session without what tracing has to do with: whether lines are traced, the line that was traced
last, the print column and the events. -/
def plain (session : Session) : Session :=
  { session with
    settings := { session.settings with tracing := false }
    traced := none
    column := 0
    events := [] }

/-- The events that are not printed text. -/
def unprinted (session : Session) : List Event := session.events.filter fun event => !event.isPrint

theorem filter_isPrint_appendPrint (text : String) (events : List Event) :
    (appendPrint text events).filter (fun event => !event.isPrint) =
      events.filter fun event => !event.isPrint := by
  fun_induction appendPrint text events with
  | case1 => rfl
  | case2 before => rfl
  | case3 event rest _ ih => rw [List.filter_cons, List.filter_cons, ih]

theorem unprinted_print (session : Session) (text : String) : (session.print text).unprinted = session.unprinted :=
  filter_isPrint_appendPrint text session.events

/-- An outcome and that of the same in the plain session: the result is the same, so is all but what
tracing has to do with, and the same was reported. -/
structure Mirrors {α : Type} (session : Session) (outcome plainly : Except Fault α × Session) : Prop where
  result : outcome.1 = plainly.1
  plain : outcome.2.plain = plainly.2.plain
  unprinted : outcome.2.unprinted = session.unprinted ++ plainly.2.unprinted

variable {α : Type} {session : Session}

theorem Mirrors.of_fields {result : Except Fault α} {after plainly : Session}
    (hplain : after.plain = plainly.plain) (hevents : after.events = session.events)
    (hnone : plainly.events = []) : Mirrors session (result, after) (result, plainly) where
  result := rfl
  plain := hplain
  unprinted := by
    unfold Session.unprinted
    rw [hevents, hnone, List.filter_nil, List.append_nil]

theorem mirrors_self (session : Session) (result : Except Fault α) :
    Mirrors session (result, session) (result, session.plain) :=
  .of_fields rfl rfl rfl

/-- What is printed at the end may differ. -/
theorem Mirrors.print {result plainResult : Except Fault α} {after plainly : Session}
    (h : Mirrors session (result, after) (plainResult, plainly)) (text other : String) :
    Mirrors session (result, after.print text) (plainResult, plainly.print other) where
  result := h.result
  plain := h.plain
  unprinted := by
    dsimp only
    rw [unprinted_print, unprinted_print]
    exact h.unprinted

end Session

namespace SessionAct

open Act Session

/-- An action that has nothing to do with tracing. -/
def Silent {α : Type} (action : SessionAct α) : Prop :=
  ∀ session, Mirrors session (action.outcome session) (action.outcome session.plain)

section Rules

variable {α β : Type} {action : SessionAct α} {next : α → SessionAct β}

theorem silent_pure (value : α) : Silent (pure value : SessionAct α) := fun _ => .of_fields rfl rfl rfl

theorem silent_throw (fault : Fault) : Silent (throw fault : SessionAct α) := fun _ => .of_fields rfl rfl rfl

theorem silent_lift (result : Except Fault α) : Silent (liftM result : SessionAct α) :=
  fun _ => .of_fields rfl rfl rfl

/-- Two sessions with the same plain one have the same outcome, but for tracing. -/
theorem Silent.alike (h : Silent action) {session other : Session} (hplain : session.plain = other.plain) :
    (action.outcome session).1 = (action.outcome other).1 ∧
      (action.outcome session).2.plain = (action.outcome other).2.plain ∧
      ∃ more, (action.outcome session).2.unprinted = session.unprinted ++ more ∧
        (action.outcome other).2.unprinted = other.unprinted ++ more := by
  have hleft := h session
  have hright := h other
  rw [← hplain] at hright
  exact ⟨hleft.result.trans hright.result.symm, hleft.plain.trans hright.plain.symm, _, hleft.unprinted,
    hright.unprinted⟩

theorem Silent.bind (h : Silent action) (hnext : ∀ value, Silent (next value)) : Silent (action >>= next) := by
  intro session
  have hfirst := h session
  rw [outcome_bind, outcome_bind]
  revert hfirst
  rcases action.outcome session with ⟨fault | value, after⟩ <;>
    rcases action.outcome session.plain with ⟨plainFault | plainValue, plainly⟩
  · intro hfirst
    cases hfirst.result
    exact ⟨rfl, hfirst.plain, hfirst.unprinted⟩
  · intro hfirst
    cases hfirst.result
  · intro hfirst
    cases hfirst.result
  · intro hfirst
    cases hfirst.result
    obtain ⟨hresult, hplain, more, hleft, hright⟩ := (hnext value).alike hfirst.plain
    refine ⟨hresult, hplain, ?_⟩
    dsimp only
    rw [hleft, hright, ← List.append_assoc]
    exact congrArg (· ++ more) hfirst.unprinted

theorem Silent.map (h : Silent action) (f : α → β) : Silent (f <$> action) :=
  h.bind fun value => silent_pure (f value)

/-- What follows reads the session, but none of the parts that tracing has to do with. -/
theorem silent_get {next : Session → SessionAct α}
    (hsame : ∀ session : Session, next session.plain = next session)
    (h : ∀ session, Silent (next session)) : Silent (get >>= next) := by
  intro session
  change Mirrors session ((next session).outcome session) ((next session.plain).outcome session.plain)
  rw [hsame]
  exact h session session

/-- What follows reads the session and puts another in its place. -/
theorem silent_get_bind {next : Session → SessionAct α}
    (h : ∀ session : Session,
      Mirrors session ((next session).outcome session) ((next session.plain).outcome session.plain)) :
    Silent (get >>= next) := h

/-- A change to a session that has nothing to do with tracing. -/
theorem silent_modify {change : Session → Session}
    (hplain : ∀ session, (change session).plain = (change session.plain).plain)
    (hevents : ∀ session, (change session).events = session.events) :
    Silent (modify change : SessionAct PUnit) :=
  fun session => .of_fields (hplain session) (hevents session) (hevents session.plain)

end Rules

section Evaluation

theorem silent_onWork {α : Type} (action : Act Workspace α) : Silent (onWork action) :=
  fun _ => .of_fields rfl rfl rfl

theorem silent_eval (expr : Expr) : Silent (eval expr) := silent_get (fun _ => rfl) fun _ => silent_onWork _

theorem silent_evalAll (exprs : List Expr) : Silent (evalAll exprs) :=
  silent_get (fun _ => rfl) fun _ => silent_onWork _

theorem silent_evalInt (expr : Expr) : Silent (evalInt expr) := (silent_eval expr).bind fun _ => silent_lift _

theorem silent_evalText (expr : Expr) : Silent (evalText expr) := (silent_eval expr).bind fun _ => silent_lift _

theorem silent_evalInts (arguments : List (Option Expr)) : Silent (evalInts arguments) := by
  induction arguments with
  | nil => exact silent_pure _
  | cons argument rest ih =>
      cases argument with
      | none => exact ih.bind fun _ => silent_pure _
      | some expr => exact (silent_evalInt expr).bind fun _ => ih.bind fun _ => silent_pure _

theorem silent_changeMemory (step : Memory → Except Fault Memory) : Silent (changeMemory step) := by
  refine silent_get_bind fun session => ?_
  have hwork : session.plain.work = session.work := rfl
  rw [outcome_bind, outcome_bind, outcome_lift, outcome_lift, hwork]
  cases step session.work.memory with
  | error fault => exact .of_fields rfl rfl rfl
  | ok memory => exact .of_fields rfl rfl rfl

theorem silent_store (target : Variable) (value : Value) : Silent (store target value) := by
  cases target with
  | scalar name => exact silent_changeMemory fun memory => memory.store name value
  | element name subscripts => exact (silent_evalAll subscripts).bind fun _ => silent_onWork _

theorem silent_goOnAt (cursor : Option Cursor) : Silent (goOnAt cursor) :=
  silent_modify (fun _ => rfl) fun _ => rfl

theorem silent_lineStart (line : Nat) : Silent (lineStart line) :=
  silent_get (fun _ => rfl) fun _ => silent_lift _

theorem silent_goto (line : Nat) : Silent (goto line) :=
  (silent_lineStart line).bind fun _ => silent_goOnAt _

end Evaluation

section Loops

theorem silent_setStack (stack : Stack Frame) : Silent (setStack stack) :=
  silent_modify (fun _ => rfl) fun _ => rfl

theorem silent_pushFrame (frame : Frame) : Silent (pushFrame frame) :=
  silent_get (fun _ => rfl) fun _ => (silent_lift _).bind fun _ => silent_setStack _

theorem silent_popFrame : Silent popFrame :=
  silent_get (fun _ => rfl) fun _ => (silent_lift _).bind fun _ => (silent_setStack _).bind fun _ => silent_pure _

theorem silent_gosub (line : Nat) : Silent (gosub line) := by
  refine (silent_lineStart line).bind fun start => silent_get (fun _ => rfl) fun session => ?_
  exact (silent_goOnAt none).bind fun _ => (silent_pushFrame _).bind fun _ => silent_goOnAt _

theorem silent_returnTo (line : Option Nat) : Silent (returnTo line) := by
  refine silent_get (fun _ => rfl) fun session => ?_
  dsimp only
  split
  · exact silent_throw _
  · refine (silent_setStack _).bind fun _ => silent_popFrame.bind fun frame => ?_
    split
    · split
      · exact silent_goto _
      · exact silent_goOnAt _
    · exact silent_throw _

theorem silent_selected (selector : Expr) (lines : List Nat) : Silent (selected selector lines) := by
  refine (silent_evalInt selector).bind fun n => ?_
  split
  · exact silent_pure _
  · exact silent_throw _

theorem silent_isOver (counter : Name) (limit step : Value) : Silent (isOver counter limit step) :=
  silent_get (fun _ => rfl) fun _ => silent_lift _

theorem silent_skipLoop : Silent skipLoop := by
  refine silent_get (fun _ => rfl) fun session => ?_
  split
  · exact silent_goOnAt _
  · exact silent_throw _

theorem silent_bounds (limit : Expr) (step : Option Expr) : Silent (bounds limit step) := by
  refine (silent_eval limit).bind fun last => ?_
  cases step with
  | none => exact (silent_pure _).bind fun _ => silent_pure _
  | some expr => exact (silent_eval expr).bind fun _ => silent_pure _

theorem silent_openLoop (counter : Name) (last change : Value) : Silent (openLoop counter last change) := by
  unfold openLoop
  split
  · exact silent_throw _
  · refine silent_get (fun _ => rfl) fun session => (silent_setStack _).bind fun _ => ?_
    refine (silent_isOver counter last change).bind fun finished => ?_
    split
    · exact silent_skipLoop
    · exact silent_get (fun _ => rfl) fun _ => silent_pushFrame _

theorem silent_forLoop (counter : Name) (start limit : Expr) (step : Option Expr) :
    Silent (forLoop counter start limit step) := by
  by_cases htype : counter.type = .text
  · rw [forLoop_of_text htype]
    exact silent_throw _
  · rw [forLoop_eq htype]
    refine (silent_eval start).bind fun first => (silent_changeMemory _).bind fun _ => ?_
    exact (silent_bounds limit step).bind fun values => silent_openLoop counter values.1 values.2

theorem silent_nextOne (counter : Option Name) : Silent (nextOne counter) := by
  refine silent_get (fun _ => rfl) fun session => (silent_setStack _).bind fun _ => ?_
  split
  · refine silent_get (fun _ => rfl) fun _ => (silent_lift _).bind fun sum => ?_
    refine (silent_changeMemory _).bind fun _ => (silent_isOver _ _ _).bind fun finished => ?_
    split
    · exact silent_popFrame.bind fun _ => silent_pure _
    · exact (silent_goOnAt _).bind fun _ => silent_pure _
  · exact silent_throw _

theorem silent_nextEach (counters : List Name) : Silent (nextEach counters) := by
  induction counters with
  | nil => exact silent_pure _
  | cons counter rest ih =>
      refine (silent_nextOne (some counter)).bind fun goesOn => ?_
      split
      · exact silent_pure _
      · exact ih

theorem silent_next (counters : List Name) : Silent (next counters) := by
  unfold next
  split
  · exact (silent_nextOne none).bind fun _ => silent_pure _
  · exact silent_nextEach counters

theorem silent_whileLoop (condition : Expr) : Silent (whileLoop condition) := by
  refine (silent_eval condition).bind fun value => (silent_lift _).bind fun holds => ?_
  split
  · exact silent_get (fun _ => rfl) fun _ => silent_pushFrame _
  · refine silent_get (fun _ => rfl) fun session => ?_
    split
    · exact silent_goOnAt _
    · exact silent_throw _

theorem silent_wend : Silent wend := by
  refine silent_get (fun _ => rfl) fun session => ?_
  split
  · exact silent_popFrame.bind fun _ => silent_goOnAt _
  · exact silent_throw _

end Loops

section Commands

theorem silent_changeSettings (change : Settings → Settings)
    (h : ∀ settings : Settings, { change settings with tracing := false } =
      ({ change { settings with tracing := false } with tracing := false } : Settings)) :
    Silent (changeSettings change) := by
  apply silent_modify
  · intro session
    have hsettings := h session.settings
    unfold Session.plain
    dsimp only
    rw [hsettings]
  · exact fun _ => rfl

theorem silent_requestLoad (path : Expr) (kind : LoadKind) : Silent (requestLoad path kind) :=
  (silent_evalText path).bind fun _ => silent_modify (fun _ => rfl) fun _ => rfl

theorem silent_dim (targets : List Variable) : Silent (dim targets) := by
  induction targets with
  | nil => exact silent_pure _
  | cons target rest ih =>
      cases target with
      | scalar _ => exact ih
      | element name subscripts =>
          exact (silent_evalAll subscripts).bind fun _ => (silent_changeMemory _).bind fun _ => ih

theorem silent_raiseCode (code : Expr) : Silent (raiseCode code) := by
  refine (silent_evalInt code).bind fun n => ?_
  split <;> exact silent_throw _

theorem silent_assignKey (number text : Expr) : Silent (assignKey number text) := by
  refine (silent_evalInt number).bind fun n => ?_
  split
  · exact (silent_evalText text).bind fun _ => silent_modify (fun _ => rfl) fun _ => rfl
  · exact silent_throw _

theorem silent_choose (condition : Expr) : Silent (choose condition) := by
  refine (silent_eval condition).bind fun value => (silent_lift _).bind fun holds => ?_
  refine silent_get (fun _ => rfl) fun session => ?_
  split
  · exact silent_goOnAt _
  · exact silent_pure _

theorem silent_onError (line : Nat) : Silent (onError line) := by
  unfold onError
  split
  · refine (silent_changeSettings _ fun _ => rfl).bind fun _ => silent_get_bind fun session => ?_
    have hstate : session.plain.state = session.state := rfl
    rw [hstate]
    split <;> exact .of_fields rfl rfl rfl
  · exact (silent_lineStart line).bind fun _ => silent_changeSettings _ fun _ => rfl

theorem silent_palette (arguments : List (Option Expr)) : Silent (palette arguments) := by
  refine (silent_evalInts arguments).bind fun values => ?_
  split
  · exact silent_changeSettings _ fun _ => rfl
  · exact silent_changeSettings _ fun _ => rfl
  · exact silent_throw _

theorem silent_dataItems : Silent dataItems := silent_get_bind fun _ => .of_fields rfl rfl rfl

theorem silent_readItem (target : Variable) : Silent (readItem target) := by
  refine silent_dataItems.bind fun items => silent_get_bind fun session => ?_
  have hposition : session.plain.dataPosition = session.dataPosition := rfl
  rw [hposition]
  split
  · exact .of_fields rfl rfl rfl
  · rw [outcome_bind, outcome_bind, outcome_set, outcome_set]
    dsimp only
    split
    · exact .of_fields rfl rfl rfl
    · split
      · split
        · exact .of_fields rfl rfl rfl
        · split <;> exact .of_fields rfl rfl rfl
      · exact .of_fields rfl rfl rfl

theorem silent_read (targets : List Variable) : Silent (read targets) := by
  induction targets with
  | nil => exact silent_pure _
  | cons target rest ih => exact (silent_readItem target).bind fun _ => (silent_store target _).bind fun _ => ih

theorem silent_restore (line : Option Nat) : Silent (restore line) := by
  refine Silent.bind (silent_modify (fun _ => rfl) fun _ => rfl) fun _ => ?_
  cases line with
  | none => exact silent_pure _
  | some number =>
      refine (silent_lineStart number).bind fun _ => silent_dataItems.bind fun items => ?_
      exact silent_modify (fun _ => rfl) fun _ => rfl

theorem silent_resume (target : ResumeAt) : Silent (resume target) := by
  intro session
  by_cases htrapped : session.state = .trapped ∧ session.settings.resume.isSome
  · obtain ⟨hstate, hsome⟩ := htrapped
    obtain ⟨failed, hresume⟩ := Option.isSome_iff_exists.mp hsome
    have hleave : ∀ action : SessionAct Unit, Silent action →
        Mirrors session (action.outcome session.leaveHandler) (action.outcome session.plain.leaveHandler) := by
      intro action haction
      have hleft := haction session.leaveHandler
      exact ⟨hleft.result, hleft.plain, hleft.unprinted⟩
    have hplainly := @outcome_resume session.plain failed hstate hresume target
    rw [outcome_resume hstate hresume, hplainly]
    cases target with
    | retry => exact hleave _ (silent_goOnAt _)
    | next => exact hleave _ (silent_goOnAt _)
    | line number => exact hleave _ (silent_goto number)
  · have hplainly := @outcome_resume_of_not session.plain htrapped target
    rw [outcome_resume_of_not htrapped, hplainly]
    exact .of_fields rfl rfl rfl

theorem silent_run (line : Option Nat) : Silent (run line) := by
  have hrun : ∀ start : Option Cursor, Silent (modify fun session : Session =>
      { session.clear with cursor := start, state := .running } : SessionAct PUnit) :=
    fun start => silent_modify (fun _ => rfl) fun _ => rfl
  cases line with
  | none => exact Silent.bind (fun _ => .of_fields rfl rfl rfl) hrun
  | some number => exact ((silent_lineStart number).map some).bind hrun

theorem silent_cont : Silent cont := by
  refine silent_get_bind fun session => ?_
  have hrestart : session.plain.settings.restart = session.settings.restart := rfl
  rw [hrestart]
  split <;> exact .of_fields rfl rfl rfl

theorem silent_finish : Silent finish := by
  refine silent_get_bind fun session => ?_
  have hstate : session.plain.state = session.state := rfl
  rw [hstate]
  split <;> exact .of_fields rfl rfl rfl

/-- The text in front of PRINT items and its column have to do with the text alone. -/
theorem outcome_printText_cases (items : List PrintItem) (column other : Nat) (text otherText : String)
    (session : Session) :
    (∃ fault after, (printText column text items).outcome session = (.error fault, after) ∧
        (printText other otherText items).outcome session = (.error fault, after)) ∨
      ∃ whole otherWhole after, (printText column text items).outcome session = (.ok whole, after) ∧
        (printText other otherText items).outcome session = (.ok otherWhole, after) := by
  induction items generalizing text otherText session with
  | nil => exact .inr ⟨text, otherText, session, rfl, rfl⟩
  | cons item rest ih =>
      cases item with
      | expr expr =>
          rw [printText, printText, outcome_bind, outcome_bind]
          rcases (eval expr).outcome session with ⟨fault | value, after⟩
          · exact .inl ⟨fault, after, rfl, rfl⟩
          · cases value with
            | text s => exact ih _ _ after
            | int n => exact ih _ _ after
            | single x => exact ih _ _ after
            | double x => exact ih _ _ after
      | comma => exact ih _ _ session
      | semicolon => exact ih _ _ session

theorem silent_printText (column : Nat) (text : String) (items : List PrintItem) :
    Silent (printText column text items) := by
  induction items generalizing text with
  | nil => exact silent_pure _
  | cons item rest ih =>
      cases item with
      | expr expr =>
          refine (silent_eval expr).bind fun value => ?_
          split
          · exact ih _
          · exact ih _
      | comma => exact ih _
      | semicolon => exact ih _

/-- PRINT prints another text in another column, but evaluates the same. -/
theorem silent_printItems (items : List PrintItem) : Silent (printItems items) := by
  refine silent_get_bind fun session => ?_
  have hprint := silent_printText session.column "" items session
  rw [outcome_bind, outcome_bind]
  obtain ⟨fault, after, hleft, hright⟩ | ⟨whole, other, after, hleft, hright⟩ :=
    outcome_printText_cases items session.column session.plain.column "" "" session.plain
  · rw [hleft] at hprint
    rw [hright]
    revert hprint
    rcases (printText session.column "" items).outcome session with ⟨fault' | whole', loud⟩
    · intro hprint
      cases hprint.result
      exact ⟨rfl, hprint.plain, hprint.unprinted⟩
    · exact fun hprint => nomatch hprint.result
  · rw [hleft] at hprint
    rw [hright]
    revert hprint
    rcases (printText session.column "" items).outcome session with ⟨fault' | whole', loud⟩
    · exact fun hprint => nomatch hprint.result
    · intro hprint
      have hdone : Mirrors session (Except.ok (), loud) (Except.ok (), after) :=
        ⟨rfl, hprint.plain, hprint.unprinted⟩
      exact hdone.print _ _

theorem silent_list (first last : Option Nat) : Silent (command (.list first last)) := by
  refine silent_get_bind fun session => ?_
  have hprogram : session.plain.program = session.program := rfl
  rw [outcome_bind, outcome_bind, outcome_lift, outcome_lift, hprogram]
  cases session.program.list first last with
  | error fault => exact .of_fields rfl rfl rfl
  | ok text => exact (mirrors_self session (.ok PUnit.unit)).print text text

theorem silent_breakOff : Silent (modify Session.breakOff : SessionAct PUnit) := by
  intro session
  rw [outcome_modify, outcome_modify]
  unfold breakOff
  have hcurrent : session.plain.current = session.current := rfl
  rw [hcurrent]
  split
  · rename_i line _
    have htold : (session.breakMessage line).unprinted = session.unprinted := unprinted_print _ _
    have hplainly : (session.plain.breakMessage line).unprinted = [] := unprinted_print _ _
    refine ⟨rfl, rfl, ?_⟩
    change (session.breakMessage line).unprinted =
      session.unprinted ++ (session.plain.breakMessage line).unprinted
    rw [htold, hplainly, List.append_nil]
  · exact .of_fields rfl rfl rfl

theorem silent_onGoto (selector : Expr) (lines : List Nat) : Silent (command (.onGoto selector lines)) := by
  refine (silent_selected selector lines).bind fun target => ?_
  cases target with
  | none => exact silent_pure _
  | some line => exact silent_goto line

theorem silent_onGosub (selector : Expr) (lines : List Nat) : Silent (command (.onGosub selector lines)) := by
  refine (silent_selected selector lines).bind fun target => ?_
  cases target with
  | none => exact silent_pure _
  | some line => exact silent_gosub line

/-- The pattern of FILES is reported, whether lines are traced or not. -/
theorem silent_files (pattern : Option Expr) : Silent (command (.files pattern)) := by
  have hreport : ∀ text,
      Silent (modify fun session : Session => session.report (.files text) : SessionAct PUnit) := by
    intro text session
    exact ⟨rfl, rfl, List.filter_append _ _⟩
  cases pattern with
  | none => exact (silent_pure "").bind hreport
  | some expr => exact (silent_evalText expr).bind hreport

/-- **No command has anything to do with tracing.** TRON and TROFF set what decides about it, but that
only shows in what is printed. -/
theorem silent_command (c : Command) : Silent (command c) := by
  have hprints : ∀ text, Silent (modify fun session : Session => session.print text : SessionAct PUnit) := by
    intro text session
    exact (mirrors_self session (.ok PUnit.unit)).print text text
  cases c with
  | auto _ _ => exact silent_modify (fun _ => rfl) fun _ => rfl
  | beep => exact hprints _
  | chain path _ _ | load path _ | merge path => exact silent_requestLoad path _
  | clear arguments => exact (silent_evalInts arguments).bind fun _ => silent_modify (fun _ => rfl) fun _ => rfl
  | clearScreen => exact silent_modify (fun _ => rfl) fun _ => rfl
  | color arguments | screen arguments =>
      exact (silent_evalInts arguments).bind fun _ => silent_changeSettings _ fun _ => rfl
  | common _ | data _ | remark _ => exact silent_pure _
  | cont => exact silent_cont
  | define _ _ _ => exact silent_modify (fun _ => rfl) fun _ => rfl
  | dim targets => exact silent_dim targets
  | finish => exact silent_finish
  | error code => exact silent_raiseCode code
  | files pattern => exact silent_files pattern
  | forLoop counter start limit step => exact silent_forLoop counter start limit step
  | gosub line => exact silent_gosub line
  | goto line => exact silent_goto line
  | key number text => exact silent_assignKey number text
  | assign target value => exact (silent_eval value).bind fun result => silent_store target result
  | list first last => exact silent_list first last
  | locate arguments => exact (silent_evalInts arguments).bind fun _ => silent_pure _
  | new => exact silent_modify (fun _ => rfl) fun _ => rfl
  | next counters => exact silent_next counters
  | onError line => exact silent_onError line
  | onGoto selector lines => exact silent_onGoto selector lines
  | onGosub selector lines => exact silent_onGosub selector lines
  | palette arguments => exact silent_palette arguments
  | print items => exact silent_printItems items
  | read targets => exact silent_read targets
  | restore line => exact silent_restore line
  | resume target => exact silent_resume target
  | returnTo line => exact silent_returnTo line
  | run line => exact silent_run line
  | stop => exact silent_breakOff
  | traceOff => exact silent_changeSettings (fun settings => { settings with tracing := false }) fun _ => rfl
  | traceOn => exact silent_changeSettings (fun settings => { settings with tracing := true }) fun _ => rfl
  | wend => exact silent_wend
  | whileLoop condition => exact silent_whileLoop condition

theorem silent_statement (next : Statement) : Silent (statement next) := by
  cases next with
  | command c => exact silent_command c
  | choice condition _ _ => exact silent_choose condition

theorem silent_endOfProgram : Silent endOfProgram := by
  refine silent_get_bind fun session => ?_
  have hstate : session.plain.state = session.state := rfl
  rw [hstate]
  split <;> exact .of_fields rfl rfl rfl

end Commands

end SessionAct

end LineBasic
