import LineBasic.Proofs.Effect

/-! Two sessions side by side. They stand in different programs or at different places of one, and in whatever
relation they are, an action keeps them in it if each part of the action does. Statements that neither jump nor
look at open loops see nothing of where a session stands, so they do the same in both. -/

namespace LineBasic

namespace Session

/-- What may differ in two sessions side by side: the program and the place in it, the functions, the open loops
and subroutines, and what is still to be reported. -/
structure Situation where
  program : Program
  functions : Std.TreeMap String UserFunction
  stack : Stack Frame
  cursor : Option Cursor
  current : Cursor
  restart : Option Cursor
  events : List Event

/-- The session in another situation. -/
def moved (session : Session) (situation : Situation) : Session :=
  { session with
    program := situation.program
    functions := situation.functions
    stack := situation.stack
    cursor := situation.cursor
    current := situation.current
    settings := { session.settings with restart := situation.restart }
    events := situation.events }

/-- The situation that a session is in. -/
def situation (session : Session) : Situation :=
  ⟨session.program, session.functions, session.stack, session.cursor, session.current, session.settings.restart,
    session.events⟩

/-- A relation between sessions side by side that statements without jumps and loops keep. -/
structure Lockstep (T : Session → Session → Prop) : Prop where
  /-- A change that has nothing to do with the situation is made in both. -/
  change {session other : Session} (h : T session other) (f : Session → Session)
    (hf : ∀ session situation, f (session.moved situation) = (f session).moved situation) :
    T (f session) (f other)
  /-- What has nothing to do with the situation is the same in both. -/
  reads {α : Type} {session other : Session} (h : T session other) (f : Session → α)
    (hf : ∀ session situation, f (session.moved situation) = f session) : f other = f session
  eval {session other : Session} (h : T session other) (expr : Expr) :
    Workspace.eval other.scope expr = Workspace.eval session.scope expr
  evalAll {session other : Session} (h : T session other) (exprs : List Expr) :
    Workspace.evalAll other.scope exprs = Workspace.evalAll session.scope exprs
  data {session other : Session} (h : T session other) : other.program.data = session.program.data
  start {session other : Session} (h : T session other) (number : Nat) :
    other.program.start number = session.program.start number
  print {session other : Session} (h : T session other) (text : String) : T (session.print text) (other.print text)
  report {session other : Session} (h : T session other) (event : Event) :
    T (session.report event) (other.report event)

/-- Sessions that differ in their situations only, and these are in a relation. -/
inductive SideBySide (R : Situation → Situation → Prop) : Session → Session → Prop
  | intro (session : Session) {a b : Situation} (h : R a b) : SideBySide R (session.moved a) (session.moved b)

theorem SideBySide.situation {R : Situation → Situation → Prop} {session other : Session}
    (h : SideBySide R session other) : R session.situation other.situation := by
  obtain ⟨base, h⟩ := h
  exact h

theorem SideBySide.move {R S : Situation → Situation → Prop} {session other : Session}
    (h : SideBySide R session other) {a b : Situation} (hmoved : S a b) :
    SideBySide S (session.moved a) (other.moved b) := by
  obtain ⟨base, -⟩ := h
  exact .intro base hmoved

theorem lockstep_sideBySide {R : Situation → Situation → Prop} (hfunctions : ∀ a b, R a b → b.functions = a.functions)
    (hdata : ∀ a b, R a b → b.program.data = a.program.data)
    (hstart : ∀ a b, R a b → ∀ number, b.program.start number = a.program.start number)
    (hprint : ∀ a b, R a b → ∀ text, R { a with events := appendPrint text a.events }
      { b with events := appendPrint text b.events })
    (hreport : ∀ a b, R a b → ∀ event, R { a with events := a.events ++ [event] }
      { b with events := b.events ++ [event] }) : Lockstep (SideBySide R) where
  change := by
    rintro _ _ ⟨base, h⟩ f hf
    rw [hf, hf]
    exact .intro (f base) h
  reads := by
    rintro _ _ _ ⟨base, h⟩ f hf
    rw [hf, hf]
  eval := by
    rintro _ _ ⟨base, h⟩ expr
    unfold scope moved
    dsimp only
    rw [hfunctions _ _ h]
  evalAll := by
    rintro _ _ ⟨base, h⟩ exprs
    unfold scope moved
    dsimp only
    rw [hfunctions _ _ h]
  data := by
    rintro _ _ ⟨base, h⟩
    exact hdata _ _ h
  start := by
    rintro _ _ ⟨base, h⟩ number
    exact hstart _ _ h number
  print := by
    rintro _ _ ⟨base, h⟩ text
    exact .intro { base with column := columnAfter base.column text } (hprint _ _ h text)
  report := by
    rintro _ _ ⟨base, h⟩ event
    exact .intro base (hreport _ _ h event)

/-- Two results that are faults for the same reason, or values in a relation, with sessions side by side. -/
inductive Paired (T : Session → Session → Prop) {α β : Type} (R : α → β → Prop) :
    Except Fault α × Session → Except Fault β × Session → Prop
  | error (fault : Fault) {session other : Session} (h : T session other) :
      Paired T R (.error fault, session) (.error fault, other)
  | ok {value : α} {found : β} (hvalue : R value found) {session other : Session} (h : T session other) :
      Paired T R (.ok value, session) (.ok found, other)

end Session

namespace SessionAct

open Act Session

variable {T : Session → Session → Prop}

/-- Actions that do the same in sessions side by side, up to a relation between the values they give. -/
def Agrees (T : Session → Session → Prop) {α β : Type} (R : α → β → Prop) (action : SessionAct α)
    (other : SessionAct β) : Prop :=
  ∀ ⦃session twin⦄, T session twin → Paired T R (action.outcome session) (other.outcome twin)

/-- An action that does the same in sessions side by side. -/
def Same (T : Session → Session → Prop) {α : Type} (action : SessionAct α) : Prop := Agrees T Eq action action

/-- From sessions side by side, where the first action gives a value, the second one does too, and the values and the
sessions are in a relation again. -/
def Follows (T : Session → Session → Prop) {α β : Type} (Q : α → β → Session → Session → Prop)
    (action : SessionAct α) (other : SessionAct β) : Prop :=
  ∀ ⦃session twin⦄, T session twin → ∀ ⦃value after⦄, action.outcome session = (.ok value, after) →
    ∃ found behind, other.outcome twin = (.ok found, behind) ∧ Q value found after behind

section Rules

variable {α β γ δ : Type} {R : α → β → Prop} {S : γ → δ → Prop} {action : SessionAct α} {other : SessionAct β}
  {next : α → SessionAct γ} {otherNext : β → SessionAct δ}

theorem Agrees.bind (h : Agrees T R action other)
    (hnext : ∀ value found, R value found → Agrees T S (next value) (otherNext found)) :
    Agrees T S (action >>= next) (other >>= otherNext) := by
  intro session twin htwin
  have hfirst := h htwin
  rw [outcome_bind, outcome_bind]
  generalize action.outcome session = outcome at hfirst ⊢
  generalize other.outcome twin = otherOutcome at hfirst ⊢
  cases hfirst with
  | error fault hafter => exact .error fault hafter
  | ok hvalue hafter => exact hnext _ _ hvalue hafter

theorem agrees_pure {value : α} {found : β} (h : R value found) : Agrees T R (pure value) (pure found) :=
  fun _ _ htwin => .ok h htwin

theorem agrees_throw (fault : Fault) : Agrees T R (throw fault) (throw fault) :=
  fun _ _ htwin => .error fault htwin

theorem same_lift (result : Except Fault α) : Same T (liftM result : SessionAct α) := by
  intro session twin htwin
  rw [outcome_lift, outcome_lift]
  cases result with
  | error fault => exact .error fault htwin
  | ok value => exact .ok rfl htwin

/-- What follows reads the sessions. -/
theorem agrees_get {next : Session → SessionAct γ} {otherNext : Session → SessionAct δ}
    (h : ∀ session twin, T session twin → Agrees T S (next session) (otherNext twin)) :
    Agrees T S (get >>= next) (get >>= otherNext) :=
  fun session twin htwin => h session twin htwin htwin

theorem agrees_set {session twin : Session} (h : T session twin) :
    Agrees T Eq (set session : SessionAct PUnit) (set twin) :=
  fun _ _ _ => .ok rfl h

theorem same_modify {change : Session → Session}
    (h : ∀ session twin, T session twin → T (change session) (change twin)) :
    Same T (modify change : SessionAct PUnit) :=
  fun _ _ htwin => .ok rfl (h _ _ htwin)

theorem Same.bind {next : α → SessionAct γ} {otherNext : α → SessionAct δ} (h : Same T action)
    (hnext : ∀ value, Agrees T S (next value) (otherNext value)) :
    Agrees T S (action >>= next) (action >>= otherNext) := by
  refine Agrees.bind h ?_
  rintro value _ rfl
  exact hnext value

theorem Same.map (h : Same T action) (f : α → γ) : Same T (f <$> action) := h.bind fun _ => agrees_pure rfl

/-- Results that are faults for the same reason, or values in a relation. -/
theorem agrees_lift {result : Except Fault α} {found : Except Fault β}
    (h : (∃ fault, result = .error fault ∧ found = .error fault) ∨
      ∃ value other, result = .ok value ∧ found = .ok other ∧ R value other) :
    Agrees T R (liftM result) (liftM found) := by
  intro session twin htwin
  obtain ⟨fault, rfl, rfl⟩ | ⟨value, other, rfl, rfl, hvalue⟩ := h
  · exact .error fault htwin
  · exact .ok hvalue htwin

theorem Agrees.bindFollows {Q : γ → δ → Session → Session → Prop} (h : Agrees T R action other)
    (hnext : ∀ value found, R value found → Follows T Q (next value) (otherNext found)) :
    Follows T Q (action >>= next) (other >>= otherNext) := by
  intro session twin htwin result last hok
  have hfirst := h htwin
  rw [outcome_bind] at hok ⊢
  generalize action.outcome session = outcome at hfirst hok
  generalize other.outcome twin = otherOutcome at hfirst ⊢
  cases hfirst with
  | error fault _ => cases hok
  | ok hvalue hafter => exact hnext _ _ hvalue hafter hok

theorem Same.bindFollows {Q : γ → δ → Session → Session → Prop} {next : α → SessionAct γ}
    {otherNext : α → SessionAct δ} (h : Same T action)
    (hnext : ∀ value, Follows T Q (next value) (otherNext value)) :
    Follows T Q (action >>= next) (action >>= otherNext) := by
  refine Agrees.bindFollows h ?_
  rintro value _ rfl
  exact hnext value

theorem Agrees.run (h : Agrees T R action other) {session twin after : Session} (htwin : T session twin) {value : α}
    (hok : action.outcome session = (.ok value, after)) :
    ∃ found behind, other.outcome twin = (.ok found, behind) ∧ R value found ∧ T after behind := by
  have hpaired := h htwin
  rw [hok] at hpaired
  generalize other.outcome twin = outcome at hpaired ⊢
  cases hpaired with
  | ok hvalue hafter => exact ⟨_, _, rfl, hvalue, hafter⟩

theorem Agrees.follows (h : Agrees T R action other) : Follows T (fun _ _ => T) action other := by
  intro session twin htwin value after hok
  obtain ⟨found, behind, hother, -, hafter⟩ := h.run htwin hok
  exact ⟨found, behind, hother, hafter⟩

theorem Follows.bind {P : α → β → Session → Session → Prop} {Q : γ → δ → Session → Session → Prop}
    (h : Follows T P action other) (hnext : ∀ value found, Follows (P value found) Q (next value) (otherNext found)) :
    Follows T Q (action >>= next) (other >>= otherNext) := by
  intro session twin htwin result last hok
  rw [outcome_bind] at hok
  rcases hfirst : action.outcome session with ⟨fault | value, after⟩
  · rw [hfirst] at hok
    cases hok
  · rw [hfirst] at hok
    obtain ⟨found, behind, hother, hafter⟩ := h htwin hfirst
    rw [outcome_bind, hother]
    exact hnext value found hafter hok

/-- A fault of the first action need not be followed. -/
theorem follows_throw {Q : α → β → Session → Session → Prop} (fault : Fault) (other : SessionAct β) :
    Follows T Q (throw fault) other := by
  intro session twin _ value after hok
  cases hok

theorem follows_pure {Q : α → β → Session → Session → Prop} {value : α} {found : β}
    (h : ∀ session twin, T session twin → Q value found session twin) : Follows T Q (pure value) (pure found) := by
  intro session twin htwin result after hok
  cases hok
  exact ⟨found, twin, rfl, h _ _ htwin⟩

theorem follows_get {Q : γ → δ → Session → Session → Prop} {next : Session → SessionAct γ}
    {otherNext : Session → SessionAct δ}
    (h : ∀ session twin, T session twin → Follows T Q (next session) (otherNext twin)) :
    Follows T Q (get >>= next) (get >>= otherNext) :=
  fun session twin htwin => h session twin htwin htwin

end Rules

end SessionAct

namespace Session

namespace Lockstep

open Act SessionAct

variable {T : Session → Session → Prop} (h : Lockstep T)
include h

section Evaluation

theorem modify {f : Session → Session}
    (hf : ∀ session situation, f (session.moved situation) = (f session).moved situation) :
    Same T (modify f : SessionAct PUnit) :=
  same_modify fun _ _ hboth => h.change hboth f hf

theorem work {session other : Session} (hboth : T session other) : other.work = session.work :=
  h.reads hboth Session.work fun _ _ => rfl

theorem onWork {α : Type} (action : Act Workspace α) : Same T (onWork action) := by
  intro session other hboth
  have hafter : T { session with work := (action.outcome session.work).2 }
      { other with work := (action.outcome session.work).2 } :=
    h.change hboth (fun base => { base with work := (action.outcome session.work).2 }) fun _ _ => rfl
  change Paired T Eq ((action.outcome session.work).1, _) ((action.outcome other.work).1, _)
  rw [h.work hboth]
  cases (action.outcome session.work).1 with
  | error fault => exact .error fault hafter
  | ok value => exact .ok rfl hafter

theorem same_eval (expr : Expr) : Same T (SessionAct.eval expr) := by
  refine agrees_get fun session other hboth => ?_
  rw [h.eval hboth]
  exact h.onWork _

theorem same_evalAll (exprs : List Expr) : Same T (SessionAct.evalAll exprs) := by
  refine agrees_get fun session other hboth => ?_
  rw [h.evalAll hboth]
  exact h.onWork _

theorem evalInt (expr : Expr) : Same T (evalInt expr) := (h.same_eval expr).bind fun _ => same_lift _

theorem evalText (expr : Expr) : Same T (evalText expr) := (h.same_eval expr).bind fun _ => same_lift _

theorem evalInts (arguments : List (Option Expr)) : Same T (evalInts arguments) := by
  induction arguments with
  | nil => exact agrees_pure rfl
  | cons argument rest ih =>
      cases argument with
      | none => exact ih.bind fun _ => agrees_pure rfl
      | some expr => exact (h.evalInt expr).bind fun _ => ih.bind fun _ => agrees_pure rfl

theorem changeMemory (step : Memory → Except Fault Memory) : Same T (changeMemory step) := by
  refine agrees_get fun session other hboth => ?_
  rw [h.work hboth]
  refine (same_lift _).bind fun memory => agrees_set ?_
  exact h.change hboth (fun base => { base with work := { session.work with memory } }) fun _ _ => rfl

theorem store (target : Variable) (value : Value) : Same T (store target value) := by
  cases target with
  | scalar name => exact h.changeMemory fun memory => memory.store name value
  | element name subscripts => exact (h.same_evalAll subscripts).bind fun _ => h.onWork _

theorem isOver (counter : Name) (limit step : Value) : Same T (isOver counter limit step) := by
  refine agrees_get fun session other hboth => ?_
  rw [h.work hboth]
  exact same_lift _

/-- A change of the settings that has nothing to do with where CONT goes on. -/
theorem changeSettings (change : Settings → Settings)
    (hchange : ∀ (settings : Settings) (restart : Option Cursor),
      change { settings with restart } = { change settings with restart }) : Same T (changeSettings change) := by
  refine h.modify fun session situation => ?_
  unfold moved
  dsimp only
  rw [hchange]

end Evaluation

section Statements

theorem lineStart (number : Nat) : Same T (lineStart number) := by
  refine agrees_get fun session other hboth => ?_
  rw [h.start hboth]
  exact same_lift _

theorem selected (selector : Expr) (lines : List Nat) : Same T (selected selector lines) := by
  refine (h.evalInt selector).bind fun n => ?_
  split
  · exact agrees_pure rfl
  · exact agrees_throw _

theorem requestLoad (path : Expr) (kind : LoadKind) : Same T (requestLoad path kind) :=
  (h.evalText path).bind fun _ => h.modify fun _ _ => rfl

theorem dim (targets : List Variable) : Same T (dim targets) := by
  induction targets with
  | nil => exact agrees_pure rfl
  | cons target rest ih =>
      cases target with
      | scalar _ => exact ih
      | element name subscripts =>
          exact (h.same_evalAll subscripts).bind fun _ => (h.changeMemory _).bind fun _ => ih

theorem raiseCode (code : Expr) : Same T (raiseCode code) := by
  refine (h.evalInt code).bind fun n => ?_
  split <;> exact agrees_throw _

theorem assignKey (number text : Expr) : Same T (assignKey number text) := by
  refine (h.evalInt number).bind fun n => ?_
  split
  · exact (h.evalText text).bind fun _ => h.modify fun _ _ => rfl
  · exact agrees_throw _

theorem onError (line : Nat) : Same T (onError line) := by
  unfold SessionAct.onError
  split
  · refine (h.changeSettings _ fun _ _ => rfl).bind fun _ => agrees_get fun session other hboth => ?_
    rw [h.reads hboth state fun _ _ => rfl, h.reads hboth (·.settings.faultCode) fun _ _ => rfl,
      h.reads hboth (·.settings.faultLine) fun _ _ => rfl]
    split
    · have hset := agrees_set (h.change hboth (fun session => { session with state := .running }) fun _ _ => rfl)
      exact hset.bind fun _ _ _ => agrees_throw _
    · exact agrees_pure rfl
  · exact (h.lineStart line).bind fun _ => h.changeSettings _ fun _ _ => rfl

theorem palette (arguments : List (Option Expr)) : Same T (palette arguments) := by
  refine (h.evalInts arguments).bind fun values => ?_
  split
  · exact h.changeSettings _ fun _ _ => rfl
  · exact h.changeSettings _ fun _ _ => rfl
  · exact agrees_throw _

theorem dataItems : Same T dataItems := by
  refine agrees_get fun session other hboth => ?_
  rw [h.data hboth, h.reads hboth Session.data fun _ _ => rfl]
  refine Agrees.bind (agrees_set ?_) fun _ _ _ => agrees_pure rfl
  exact h.change hboth (fun base => { base with data := some (session.data.getD session.program.data) })
    fun _ _ => rfl

theorem readItem (target : Variable) : Same T (readItem target) := by
  refine h.dataItems.bind fun items => agrees_get fun session other hboth => ?_
  rw [h.reads hboth dataPosition fun _ _ => rfl]
  split
  · exact agrees_throw _
  · refine Agrees.bind (agrees_set ?_) fun _ _ _ => ?_
    · exact h.change hboth (fun base => { base with dataPosition := session.dataPosition + 1 }) fun _ _ => rfl
    · split
      · exact agrees_pure rfl
      · split
        · split
          · exact agrees_pure rfl
          · split
            · exact agrees_pure rfl
            · exact agrees_throw _
        · exact agrees_throw _

theorem read (targets : List Variable) : Same T (read targets) := by
  induction targets with
  | nil => exact agrees_pure rfl
  | cons target rest ih => exact (h.readItem target).bind fun _ => (h.store target _).bind fun _ => ih

theorem restore (line : Option Nat) : Same T (restore line) := by
  have hposition : ∀ position : Nat,
      Same T (modifyThe Session fun session => { session with dataPosition := position } : SessionAct PUnit) :=
    fun position => h.modify fun _ _ => rfl
  refine (hposition 0).bind fun _ => ?_
  cases line with
  | none => exact agrees_pure rfl
  | some number => exact (h.lineStart number).bind fun _ => h.dataItems.bind fun items => hposition _

theorem printText (column : Nat) (text : String) (items : List PrintItem) : Same T (printText column text items) := by
  induction items generalizing text with
  | nil => exact agrees_pure rfl
  | cons item rest ih =>
      cases item with
      | expr expr =>
          refine (h.same_eval expr).bind fun value => ?_
          split
          · exact ih _
          · exact ih _
      | comma => exact ih _
      | semicolon => exact ih _

theorem same_print (text : String) : Same T (modifyThe Session (·.print text) : SessionAct PUnit) :=
  same_modify fun _ _ hboth => h.print hboth text

theorem printItems (items : List PrintItem) : Same T (printItems items) := by
  refine agrees_get fun session other hboth => ?_
  rw [h.reads hboth column fun _ _ => rfl]
  exact (h.printText session.column "" items).bind fun text => h.same_print _

end Statements

end Lockstep

end Session

/-- Whether a command has nothing to do with where a session stands: it does not jump, opens, closes and looks for no
loop or subroutine, neither ends nor starts a run, keeps no function and shows no program. -/
def Command.isUnplaced : Command → Bool
  | .auto _ _ | .clear _ | .cont | .define _ _ _ | .finish | .forLoop _ _ _ _ | .gosub _ | .goto _ | .list _ _ | .new
  | .next _ | .onGosub _ _ | .onGoto _ _ | .resume _ | .returnTo _ | .run _ | .stop | .wend | .whileLoop _ => false
  | _ => true

namespace Session

open Act SessionAct

/-- **A command that has nothing to do with where a session stands does the same** in sessions side by side. -/
theorem Lockstep.command {T : Session → Session → Prop} (h : Lockstep T) {c : Command}
    (hunplaced : c.isUnplaced = true) :
    Same T (command c) := by
  cases c with
  | auto | clear | cont | define | finish | forLoop | gosub | goto | list | new | next | onGosub | onGoto | resume
  | returnTo | run | stop | wend | whileLoop => cases hunplaced
  | beep => exact h.same_print _
  | clearScreen => exact h.modify fun _ _ => rfl
  | chain path _ _ | load path _ | merge path => exact h.requestLoad path _
  | color arguments | screen arguments => exact (h.evalInts arguments).bind fun _ => h.changeSettings _ fun _ _ => rfl
  | common _ | data _ | remark _ => exact agrees_pure rfl
  | dim targets => exact h.dim targets
  | error code => exact h.raiseCode code
  | files pattern =>
      have hreport : ∀ text, Same T (modifyThe Session (·.report (.files text)) : SessionAct PUnit) :=
        fun text => same_modify fun _ _ hboth => h.report hboth _
      cases pattern with
      | none => exact Same.bind (agrees_pure rfl) hreport
      | some expr => exact (h.evalText expr).bind hreport
  | key number text => exact h.assignKey number text
  | assign target value => exact (h.same_eval value).bind fun result => h.store target result
  | locate arguments => exact (h.evalInts arguments).bind fun _ => agrees_pure rfl
  | onError line => exact h.onError line
  | palette arguments => exact h.palette arguments
  | print items => exact h.printItems items
  | read targets => exact h.read targets
  | restore line => exact h.restore line
  | traceOff => exact h.changeSettings (fun settings => { settings with tracing := false }) fun _ _ => rfl
  | traceOn => exact h.changeSettings (fun settings => { settings with tracing := true }) fun _ _ => rfl

end Session

end LineBasic
