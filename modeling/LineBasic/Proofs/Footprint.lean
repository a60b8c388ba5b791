import LineBasic.Session.Run
import Mathlib.Order.Defs.Unbundled

/-! What actions leave alone. A relation between the state before an action and the state after it
holds for a sequence of actions when it holds for each of them, also where one of them ends in a
fault. Evaluating and storing change the workspace of a session and nothing else, and they leave no
call of a function open. -/

namespace LineBasic

namespace Act

variable {σ α β : Type}

theorem outcome_get (state : σ) : (get : Act σ σ).outcome state = (.ok state, state) := rfl

theorem outcome_set (state after : σ) :
    (set after : Act σ PUnit).outcome state = (.ok ⟨⟩, after) := rfl

theorem outcome_modify (change : σ → σ) (state : σ) :
    (modify change : Act σ PUnit).outcome state = (.ok ⟨⟩, change state) := rfl

theorem outcome_lift (result : Except Fault α) (state : σ) :
    (liftM result : Act σ α).outcome state = (result, state) := rfl

/-- An outcome whose result is known. -/
theorem outcome_eq_of_fst {action : Act σ α} {state : σ} {result : Except Fault α}
    (h : (action.outcome state).1 = result) : action.outcome state = (result, (action.outcome state).2) := by
  rw [← h]

theorem outcome_bind_of_ok {action : Act σ α} {next : α → Act σ β} {state : σ} {value : α}
    (h : (action.outcome state).1 = .ok value) :
    (action >>= next).outcome state = (next value).outcome (action.outcome state).2 := by
  rw [outcome_bind, outcome_eq_of_fst h]

theorem outcome_bind_of_error {action : Act σ α} {next : α → Act σ β} {state : σ} {fault : Fault}
    (h : (action.outcome state).1 = .error fault) :
    (action >>= next).outcome state = (.error fault, (action.outcome state).2) := by
  rw [outcome_bind, outcome_eq_of_fst h]

theorem outcome_map (f : α → β) (action : Act σ α) (state : σ) :
    (f <$> action).outcome state =
      ((action.outcome state).1.map f, (action.outcome state).2) := by
  change (action >>= fun value => pure (f value)).outcome state = _
  rw [outcome_bind]
  rcases action.outcome state with ⟨fault | value, after⟩ <;> rfl

/-- Where actions one after the other give a value, the first one does. -/
theorem exists_of_bind_ok {action : Act σ α} {next : α → Act σ β} {state : σ} {value : β}
    (h : ((action >>= next).outcome state).1 = .ok value) :
    ∃ first middle, action.outcome state = (.ok first, middle) ∧ ((next first).outcome middle).1 = .ok value := by
  rw [outcome_bind] at h
  rcases hfirst : action.outcome state with ⟨fault | first, middle⟩
  · rw [hfirst] at h
    cases h
  · rw [hfirst] at h
    exact ⟨first, middle, rfl, h⟩

theorem outcome_attempt (action : Act σ α) (state : σ) :
    action.attempt.outcome state =
      (.ok (action.outcome state).1, (action.outcome state).2) := rfl

/-- Every outcome of an action leaves a state that is related to the state before. -/
def Relates (R : σ → σ → Prop) (action : Act σ α) : Prop :=
  ∀ state, R state (action.outcome state).2

variable {R : σ → σ → Prop}

theorem Relates.mono {Q : σ → σ → Prop} {action : Act σ α} (h : Relates R action)
    (himp : ∀ state after, R state after → Q state after) : Relates Q action :=
  fun state => himp _ _ (h state)

/-- A step that starts from a known state. -/
theorem relates_get_bind {next : σ → Act σ α}
    (h : ∀ state, R state ((next state).outcome state).2) : Relates R (get >>= next) :=
  h

variable [IsPreorder σ R]

theorem relates_pure (value : α) : Relates R (pure value : Act σ α) :=
  fun state => refl_of R state

theorem relates_throw (fault : Fault) : Relates R (throw fault : Act σ α) :=
  fun state => refl_of R state

theorem relates_lift (result : Except Fault α) : Relates R (liftM result : Act σ α) :=
  fun state => refl_of R state

theorem relates_get : Relates R (get : Act σ σ) :=
  fun state => refl_of R state

theorem Relates.bind {action : Act σ α} {next : α → Act σ β} (h : Relates R action)
    (hnext : ∀ value, Relates R (next value)) : Relates R (action >>= next) := by
  intro state
  have hfirst := h state
  rw [outcome_bind]
  revert hfirst
  rcases action.outcome state with ⟨fault | value, after⟩
  · exact id
  · exact fun hfirst => trans_of R hfirst (hnext value after)

theorem Relates.map {action : Act σ α} (h : Relates R action) (f : α → β) :
    Relates R (f <$> action) :=
  h.bind fun value => relates_pure (f value)

omit [IsPreorder σ R] in
theorem Relates.attempt {action : Act σ α} (h : Relates R action) : Relates R action.attempt :=
  h

end Act

namespace Workspace

open Act

/-- As many calls are open as before. -/
def SameDepth (work after : Workspace) : Prop := after.depth = work.depth

instance : IsPreorder Workspace SameDepth where
  refl _ := rfl
  trans _ _ _ h h' := h'.trans h

theorem sameDepth_onMemory {α : Type} (action : Act Memory α) :
    Relates SameDepth (onMemory action) :=
  fun _ => rfl

theorem sameDepth_storeAll (values : List (Name × Value)) : Relates SameDepth (storeAll values) := by
  induction values with
  | nil => exact relates_pure _
  | cons first rest ih =>
      refine relates_get_bind fun work => ?_
      rw [outcome_bind, outcome_lift]
      cases work.memory.store first.1 first.2 with
      | error fault => rfl
      | ok memory => exact ih { work with memory }

theorem sameDepth_callBuiltin (name : Name) (arguments : List Value) :
    Relates SameDepth (callBuiltin name arguments) := by
  refine relates_get_bind fun work => ?_
  rw [outcome_bind, outcome_lift]
  cases work.random.call name.spelling arguments <;> rfl

mutual

/-- Evaluating closes every call that it opens, if calls do. -/
theorem sameDepth_evalWith (scope : Scope) {call : Name → List Value → Act Workspace Value}
    (hcall : ∀ name values, Relates SameDepth (call name values)) (expr : Expr) :
    Relates SameDepth (evalWith scope call expr) := by
  cases expr with
  | int _ | single _ | double _ | text _ | truth _ | faultLine | faultCode | cursorRow =>
      exact relates_pure _
  | scalar name =>
      unfold evalWith
      split
      · exact hcall name []
      · exact relates_get.bind fun _ => relates_pure _
  | element name subscripts =>
      unfold evalWith
      exact (sameDepth_evalAllWith scope hcall subscripts).bind fun _ => sameDepth_onMemory _
  | call name arguments =>
      unfold evalWith
      refine (sameDepth_evalAllWith scope hcall arguments).bind fun values => ?_
      split
      · exact hcall name values
      · exact sameDepth_callBuiltin name values
  | unary op operand =>
      unfold evalWith
      exact (sameDepth_evalWith scope hcall operand).bind fun _ => relates_lift _
  | binary op left right =>
      unfold evalWith
      refine (sameDepth_evalWith scope hcall left).bind fun _ => ?_
      exact (sameDepth_evalWith scope hcall right).bind fun _ => relates_lift _

theorem sameDepth_evalAllWith (scope : Scope) {call : Name → List Value → Act Workspace Value}
    (hcall : ∀ name values, Relates SameDepth (call name values)) (exprs : List Expr) :
    Relates SameDepth (evalAllWith scope call exprs) := by
  cases exprs with
  | nil => exact relates_pure _
  | cons expr rest =>
      unfold evalAllWith
      refine (sameDepth_evalWith scope hcall expr).bind fun _ => ?_
      exact (sameDepth_evalAllWith scope hcall rest).bind fun _ => relates_pure _

end

theorem outcome_deeper {α : Type} (action : Act Workspace α) (work : Workspace) :
    (deeper action).outcome work =
      ((action.outcome { work with depth := work.depth + 1 }).1,
        { (action.outcome { work with depth := work.depth + 1 }).2 with
          depth := (action.outcome { work with depth := work.depth + 1 }).2.depth - 1 }) := by
  unfold deeper
  rw [outcome_bind, outcome_modify]
  dsimp only
  rw [outcome_bind, outcome_attempt]
  rfl

/-- An action with one more call open closes it again, also where it fails. -/
theorem sameDepth_deeper {α : Type} {action : Act Workspace α} (h : Relates SameDepth action) :
    Relates SameDepth (deeper action) := by
  intro work
  have hinner := h { work with depth := work.depth + 1 }
  rw [outcome_deeper]
  change (action.outcome { work with depth := work.depth + 1 }).2.depth - 1 = work.depth
  rw [hinner, Nat.add_sub_cancel]

theorem sameDepth_callUser (scope : Scope) (remaining : Nat) (name : Name) (values : List Value) :
    Relates SameDepth (callUser scope remaining name values) := by
  induction remaining generalizing name values with
  | zero => exact (relates_lift _).bind fun _ => relates_throw _
  | succ remaining ih =>
      unfold callUser
      refine (relates_lift _).bind fun function => relates_get.bind fun work => ?_
      split
      · exact relates_throw _
      · refine (sameDepth_storeAll _).bind fun _ => ?_
        refine (sameDepth_deeper (sameDepth_evalWith scope ih function.body)).attempt.bind fun _ => ?_
        refine (sameDepth_storeAll _).bind fun _ => (relates_lift _).bind fun value => ?_
        split
        · exact relates_pure _
        · exact relates_throw _

theorem sameDepth_eval (scope : Scope) (expr : Expr) : Relates SameDepth (eval scope expr) :=
  relates_get.bind fun _ => sameDepth_evalWith scope (sameDepth_callUser scope _) expr

theorem sameDepth_evalAll (scope : Scope) (exprs : List Expr) :
    Relates SameDepth (evalAll scope exprs) :=
  relates_get.bind fun _ => sameDepth_evalAllWith scope (sameDepth_callUser scope _) exprs

end Workspace

namespace Session

/-- Preorders of sessions that let the workspace change, as long as no call is left open. -/
class AllowsEval (R : Session → Session → Prop) : Prop extends IsPreorder Session R where
  withWork : ∀ (session : Session) (work : Workspace), work.depth = session.work.depth →
    R session { session with work }

/-- Nothing but the workspace differs. -/
def WorkOnly (session after : Session) : Prop := ∃ work, after = { session with work }

instance : IsPreorder Session WorkOnly where
  refl session := ⟨session.work, rfl⟩
  trans := by
    rintro first _ _ ⟨work, rfl⟩ ⟨other, rfl⟩
    exact ⟨other, rfl⟩

instance : AllowsEval WorkOnly where
  withWork _ work _ := ⟨work, rfl⟩

end Session

namespace SessionAct

open Act Session

variable {R : Session → Session → Prop} [AllowsEval R]

theorem relates_onWork {α : Type} {action : Act Workspace α}
    (h : Relates Workspace.SameDepth action) : Relates R (onWork action) :=
  fun session => AllowsEval.withWork session (action.outcome session.work).2 (h session.work)

theorem relates_eval (expr : Expr) : Relates R (eval expr) :=
  relates_get.bind fun _ => relates_onWork (Workspace.sameDepth_eval _ expr)

theorem relates_evalAll (exprs : List Expr) : Relates R (evalAll exprs) :=
  relates_get.bind fun _ => relates_onWork (Workspace.sameDepth_evalAll _ exprs)

theorem relates_evalInt (expr : Expr) : Relates R (evalInt expr) :=
  (relates_eval expr).bind fun _ => relates_lift _

theorem relates_evalText (expr : Expr) : Relates R (evalText expr) :=
  (relates_eval expr).bind fun _ => relates_lift _

theorem relates_evalInts (arguments : List (Option Expr)) :
    Relates R (evalInts arguments) := by
  induction arguments with
  | nil => exact relates_pure _
  | cons argument rest ih =>
      cases argument with
      | none => exact ih.bind fun _ => relates_pure _
      | some expr =>
          exact (relates_evalInt expr).bind fun _ => ih.bind fun _ => relates_pure _

theorem relates_changeMemory (step : Memory → Except Fault Memory) :
    Relates R (changeMemory step) := by
  refine relates_get_bind fun session => ?_
  rw [outcome_bind, outcome_lift]
  cases step session.work.memory with
  | error fault => exact refl_of R session
  | ok memory => exact AllowsEval.withWork session { session.work with memory } rfl

theorem relates_storeScalar (name : Name) (value : Value) :
    Relates R (storeScalar name value) :=
  relates_changeMemory _

theorem relates_store (target : Variable) (value : Value) :
    Relates R (store target value) := by
  cases target with
  | scalar name => exact relates_storeScalar name value
  | element name subscripts =>
      exact (relates_evalAll subscripts).bind fun _ =>
        relates_onWork (Workspace.sameDepth_onMemory _)

theorem relates_selected (selector : Expr) (lines : List Nat) :
    Relates R (selected selector lines) := by
  refine (relates_evalInt selector).bind fun n => ?_
  split
  · exact relates_pure _
  · exact relates_throw _

theorem relates_isOver (counter : Name) (limit step : Value) :
    Relates R (isOver counter limit step) :=
  relates_get.bind fun _ => relates_lift _

/-- What FOR reads once its counter has the first value: the limit and the step. -/
def bounds (limit : Expr) (step : Option Expr) : SessionAct (Value × Value) := do
  let last ← eval limit
  let change ←
    match step with
    | some expr => eval expr
    | none => pure (.int 1)
  return (last, change)

/-- What FOR does once it has read all values. -/
def openLoop (counter : Name) (last change : Value) : SessionAct Unit := do
  if last.isText || change.isText then throw (.of .typeMismatch)
  else
    let stack := (← get).stack
    setStack (closeSameLoop stack counter)
    if ← isOver counter last change then skipLoop
    else
      let body := (← get).cursor
      pushFrame (.forLoop counter last change body)

/-- No loop counts in a string. -/
theorem forLoop_of_text {counter : Name} (htype : counter.type = .text) (start limit : Expr) (step : Option Expr) :
    forLoop counter start limit step = throw (.of .typeMismatch) := by
  rw [forLoop, if_pos htype]

theorem forLoop_eq {counter : Name} (htype : counter.type ≠ .text) (start limit : Expr) (step : Option Expr) :
    forLoop counter start limit step = (do
      let first ← eval start
      storeScalar counter first
      let values ← bounds limit step
      openLoop counter values.1 values.2) := by
  unfold forLoop bounds openLoop
  rw [if_neg htype]
  cases step <;> simp only [bind_assoc, pure_bind]

/-- A loop that is not entered ends behind its NEXT. -/
theorem outcome_skipLoop (session : Session) :
    skipLoop.outcome session =
      match session.program.closingNext? session.program.span 0 session.cursor with
      | some close => (.ok ⟨⟩, { session with cursor := session.program.advance? close })
      | none => (.error (.of .forWithoutNext), session) := by
  unfold skipLoop
  rw [outcome_bind, outcome_get]
  dsimp only
  cases session.program.closingNext? session.program.span 0 session.cursor <;> rfl

/-- What opens or skips a loop. -/
theorem outcome_openLoop (counter : Name) (last change : Value) (session : Session) :
    (openLoop counter last change).outcome session =
      if last.isText || change.isText then (.error (.of .typeMismatch), session)
      else
        let closed : Session := { session with stack := closeSameLoop session.stack counter }
        match isPast (session.work.memory.fetch counter) last change with
        | .error fault => (.error fault, closed)
        | .ok true => skipLoop.outcome closed
        | .ok false => (pushFrame (.forLoop counter last change session.cursor)).outcome closed := by
  unfold openLoop
  split
  · rfl
  · rw [outcome_bind, outcome_get]
    dsimp only
    rw [outcome_bind]
    change Act.outcome _ { session with stack := closeSameLoop session.stack counter } = _
    unfold isOver
    rw [outcome_bind, outcome_bind, outcome_get]
    dsimp only
    rw [outcome_lift]
    rcases isPast (session.work.memory.fetch counter) last change with fault | finished
    · rfl
    · cases finished <;> rfl

theorem relates_bounds (limit : Expr) (step : Option Expr) : Relates R (bounds limit step) := by
  refine (relates_eval limit).bind fun last => ?_
  cases step with
  | none => exact (relates_pure _).bind fun _ => relates_pure _
  | some expr => exact (relates_eval expr).bind fun _ => relates_pure _

theorem relates_lineStart (line : Nat) : Relates R (lineStart line) :=
  relates_get.bind fun _ => relates_lift _

theorem relates_printText (column : Nat) (text : String) (items : List PrintItem) :
    Relates R (printText column text items) := by
  induction items generalizing text with
  | nil => exact relates_pure _
  | cons item rest ih =>
      cases item with
      | expr expr =>
          refine (relates_eval expr).bind fun value => ?_
          cases value <;> exact ih _
      | comma => exact ih _
      | semicolon => exact ih _

theorem relates_dim (targets : List Variable) : Relates R (dim targets) := by
  induction targets with
  | nil => exact relates_pure _
  | cons target rest ih =>
      cases target with
      | scalar name => exact ih
      | element name subscripts =>
          exact (relates_evalAll subscripts).bind fun _ => (relates_changeMemory _).bind fun _ => ih

end SessionAct

end LineBasic
