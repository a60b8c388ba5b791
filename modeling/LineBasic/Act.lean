import LineBasic.Fault

/-! Actions on a state that may end in a fault. What an action changed before its fault stays
changed. -/

namespace LineBasic

/-- An action that reads and changes a state of type `σ` and gives a value or a fault. -/
abbrev Act (σ α : Type) := ExceptT Fault (StateM σ) α

namespace Act

/-- Carries out an action: its outcome and the state it leaves. -/
def outcome {σ α : Type} (action : Act σ α) (state : σ) : Except Fault α × σ :=
  action.run.run state

/-- Carries out an action on a part of the state. -/
def onPart {σ τ α : Type} (part : σ → τ) (replace : σ → τ → σ) (action : Act τ α) : Act σ α :=
  ExceptT.mk fun state =>
    let (result, after) := action.outcome (part state)
    (result, replace state after)

/-- Carries out an action and gives its outcome as a value, so that a fault does not end what
follows. -/
def attempt {σ α : Type} (action : Act σ α) : Act σ (Except Fault α) :=
  ExceptT.mk fun state =>
    let (result, after) := action.outcome state
    (.ok result, after)

theorem outcome_pure {σ α : Type} (value : α) (state : σ) :
    (pure value : Act σ α).outcome state = (.ok value, state) := rfl

theorem outcome_throw {σ α : Type} (fault : Fault) (state : σ) :
    (throw fault : Act σ α).outcome state = (.error fault, state) := rfl

/-- Actions one after the other: a fault of the first skips the second. -/
theorem outcome_bind {σ α β : Type} (action : Act σ α) (next : α → Act σ β) (state : σ) :
    (action >>= next).outcome state =
      match action.outcome state with
      | (.ok value, after) => (next value).outcome after
      | (.error fault, after) => (.error fault, after) := by
  change ExceptT.bindCont next (action.outcome state).1 (action.outcome state).2 = _
  rcases action.outcome state with ⟨fault | value, after⟩ <;> rfl

end Act

end LineBasic
