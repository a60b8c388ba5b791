import LineBasic.Proofs.PrintZones
import Mathlib.Order.WellFounded

/-! How deep calls go. A function of the program can call itself and others, and its body is no part of the
expression that calls it. Evaluation is described here by rules that bound nothing: a call is carried out wherever
fewer calls are open than the limit. Each evaluation that another one asks for either has less room left for calls,
or as much room and a smaller expression. So every evaluation comes to an end, whatever the functions are, and
evaluating with a bound on the calls computes its outcome. -/

namespace LineBasic

namespace Act

variable {σ α β : Type}

/-- An outcome, gone on with where it is a value. -/
def followedBy (ended : Except Fault α × σ) (next : α → Act σ β) : Except Fault β × σ :=
  match ended with
  | (.ok value, after) => (next value).outcome after
  | (.error fault, after) => (.error fault, after)

theorem outcome_bind_eq_followedBy (action : Act σ α) (next : α → Act σ β) (state : σ) :
    (action >>= next).outcome state = followedBy (action.outcome state) next :=
  outcome_bind action next state

end Act

/-- The value of an expression in which nothing else is evaluated. -/
def Expr.immediate? (scope : Scope) (memory : Memory) : Expr → Option Value
  | int n => some (.int n)
  | single x => some (.single x)
  | double x => some (.double x)
  | text s => some (.text s)
  | truth b => some (.ofBool b)
  | scalar name => if name.isFunction then none else some (memory.fetch name)
  | faultLine => some (.single (Float32.ofNat (scope.faultLine.getD 65535)))
  | faultCode => some (.int (Int16.ofNat scope.faultCode))
  | cursorRow => some (.int 1)
  | element _ _ | call _ _ | unary _ _ | binary _ _ _ => none

namespace Workspace

open Act

variable {scope : Scope} {name : Name} {arguments : List Value} {function : UserFunction}
  {work inside middle : Workspace} {expr : Expr} {exprs : List Expr} {depths : List Nat}

section Rules

/-- A call gets as far as the body of the function: it has as many arguments as the function has parameters, fewer
calls are open than the limit, and the parameters take the arguments. One more call is open then. -/
structure Enters (scope : Scope) (name : Name) (arguments : List Value) (work : Workspace)
    (function : UserFunction) (inside : Workspace) : Prop where
  found : functionFor scope name arguments.length = .ok function
  room : work.depth < maxDepth
  passed : ∃ passed, (storeAll (function.parameters.zip arguments)).outcome work = (.ok ⟨⟩, passed) ∧
    inside = { passed with depth := passed.depth + 1 }

/-- The parameters of a function with the values that they have. -/
def savedFor (function : UserFunction) (work : Workspace) : List (Name × Value) :=
  function.parameters.map fun parameter => (parameter, work.memory.fetch parameter)

/-- What a call does behind the body: it gives the parameters their values back, and then hands on how the body has
ended, where a value has to be of the type of the name. -/
def conclude (name : Name) (saved : List (Name × Value)) (result : Except Fault Value) : Act Workspace Value := do
  storeAll saved
  let value ← result
  if (name.type == .text) = value.isText then return value else throw (.of .typeMismatch)

mutual

/-- From a workspace on, an expression is evaluated with this outcome. Bodies of functions are evaluated on the way
with so many calls open, each counted with its own. -/
inductive Evaluates (scope : Scope) : Expr → Workspace → List Nat → Except Fault Value × Workspace → Prop
  | immediate {expr : Expr} {work : Workspace} {value : Value} (h : expr.immediate? scope work.memory = some value) :
      Evaluates scope expr work [] (.ok value, work)
  | constant {name : Name} {work : Workspace} {depths : List Nat} {ended : Except Fault Value × Workspace}
      (hname : name.isFunction = true) (h : Calls scope name [] work depths ended) :
      Evaluates scope (.scalar name) work depths ended
  | element {name : Name} {subscripts : List Expr} {work : Workspace} {depths : List Nat}
      {ended : Except Fault (List Value) × Workspace} (h : EvaluatesAll scope subscripts work depths ended) :
      Evaluates scope (.element name subscripts) work depths
        (followedBy ended fun values => onMemory (Memory.fetchElement name values))
  | builtin {name : Name} {arguments : List Expr} {work : Workspace} {depths : List Nat}
      {ended : Except Fault (List Value) × Workspace} (hname : name.isFunction = false)
      (h : EvaluatesAll scope arguments work depths ended) :
      Evaluates scope (.call name arguments) work depths (followedBy ended (callBuiltin name))
  | callFault {name : Name} {arguments : List Expr} {work after : Workspace} {depths : List Nat} {fault : Fault}
      (hname : name.isFunction = true) (h : EvaluatesAll scope arguments work depths (.error fault, after)) :
      Evaluates scope (.call name arguments) work depths (.error fault, after)
  | call {name : Name} {arguments : List Expr} {work middle : Workspace} {depths later : List Nat}
      {values : List Value} {ended : Except Fault Value × Workspace} (hname : name.isFunction = true)
      (h : EvaluatesAll scope arguments work depths (.ok values, middle))
      (hcall : Calls scope name values middle later ended) :
      Evaluates scope (.call name arguments) work (depths ++ later) ended
  | unary {op : UnaryOp} {operand : Expr} {work : Workspace} {depths : List Nat}
      {ended : Except Fault Value × Workspace} (h : Evaluates scope operand work depths ended) :
      Evaluates scope (.unary op operand) work depths (followedBy ended fun value => liftM (op.apply value))
  | binaryFault {op : BinaryOp} {left right : Expr} {work after : Workspace} {depths : List Nat} {fault : Fault}
      (h : Evaluates scope left work depths (.error fault, after)) :
      Evaluates scope (.binary op left right) work depths (.error fault, after)
  | binary {op : BinaryOp} {left right : Expr} {work middle : Workspace} {depths later : List Nat} {l : Value}
      {ended : Except Fault Value × Workspace} (hleft : Evaluates scope left work depths (.ok l, middle))
      (hright : Evaluates scope right middle later ended) :
      Evaluates scope (.binary op left right) work (depths ++ later)
        (followedBy ended fun r => liftM (op.apply l r))

/-- From a workspace on, expressions are evaluated from left to right, up to the first that fails. -/
inductive EvaluatesAll (scope : Scope) :
    List Expr → Workspace → List Nat → Except Fault (List Value) × Workspace → Prop
  | nil {work : Workspace} : EvaluatesAll scope [] work [] (.ok [], work)
  | fault {expr : Expr} {rest : List Expr} {work after : Workspace} {depths : List Nat} {fault : Fault}
      (h : Evaluates scope expr work depths (.error fault, after)) :
      EvaluatesAll scope (expr :: rest) work depths (.error fault, after)
  | cons {expr : Expr} {rest : List Expr} {work middle : Workspace} {depths later : List Nat} {value : Value}
      {ended : Except Fault (List Value) × Workspace} (h : Evaluates scope expr work depths (.ok value, middle))
      (hrest : EvaluatesAll scope rest middle later ended) :
      EvaluatesAll scope (expr :: rest) work (depths ++ later)
        (followedBy ended fun values => pure (value :: values))

/-- From a workspace on, a function of the program is called with this outcome. -/
inductive Calls (scope : Scope) :
    Name → List Value → Workspace → List Nat → Except Fault Value × Workspace → Prop
  | missing {name : Name} {arguments : List Value} {work : Workspace} {fault : Fault}
      (h : functionFor scope name arguments.length = .error fault) :
      Calls scope name arguments work [] (.error fault, work)
  | tooDeep {name : Name} {arguments : List Value} {work : Workspace} {function : UserFunction}
      (h : functionFor scope name arguments.length = .ok function) (hdeep : maxDepth ≤ work.depth) :
      Calls scope name arguments work [] (.error (.of .outOfMemory), work)
  | refused {name : Name} {arguments : List Value} {work after : Workspace} {function : UserFunction} {fault : Fault}
      (h : functionFor scope name arguments.length = .ok function) (hroom : work.depth < maxDepth)
      (hrefused : (storeAll (function.parameters.zip arguments)).outcome work = (.error fault, after)) :
      Calls scope name arguments work [] (.error fault, after)
  | body {name : Name} {arguments : List Value} {work inside last : Workspace} {function : UserFunction}
      {depths : List Nat} {result : Except Fault Value} (h : Enters scope name arguments work function inside)
      (hbody : Evaluates scope function.body inside depths (result, last)) :
      Calls scope name arguments work (inside.depth :: depths)
        ((conclude name (savedFor function work) result).outcome { last with depth := last.depth - 1 })

end

/-- A call has at most so many calls open when it reaches the body, itself included. -/
theorem Enters.depth (h : Enters scope name arguments work function inside) : inside.depth = work.depth + 1 := by
  obtain ⟨passed, hpassed, rfl⟩ := h.passed
  have hsame := sameDepth_storeAll (function.parameters.zip arguments) work
  rw [hpassed] at hsame
  exact congrArg (· + 1) hsame

theorem Enters.depth_le (h : Enters scope name arguments work function inside) : inside.depth ≤ maxDepth :=
  h.depth ▸ h.room

mutual

/-- No body is evaluated with more calls open than the limit. -/
theorem depths_le_of_evaluates : ∀ {expr : Expr} {work : Workspace} {depths : List Nat}
    {ended : Except Fault Value × Workspace}, Evaluates scope expr work depths ended →
    ∀ depth ∈ depths, depth ≤ maxDepth
  | _, _, _, _, .immediate _ => fun _ hmem => absurd hmem List.not_mem_nil
  | _, _, _, _, .constant _ hcall => depths_le_of_calls hcall
  | _, _, _, _, .element hall | _, _, _, _, .builtin _ hall | _, _, _, _, .callFault _ hall =>
      depths_le_of_evaluatesAll hall
  | _, _, _, _, .call _ hall hcall =>
      List.forall_mem_append.mpr ⟨depths_le_of_evaluatesAll hall, depths_le_of_calls hcall⟩
  | _, _, _, _, .unary hoperand | _, _, _, _, .binaryFault hoperand => depths_le_of_evaluates hoperand
  | _, _, _, _, .binary hleft hright =>
      List.forall_mem_append.mpr ⟨depths_le_of_evaluates hleft, depths_le_of_evaluates hright⟩

theorem depths_le_of_evaluatesAll : ∀ {exprs : List Expr} {work : Workspace} {depths : List Nat}
    {ended : Except Fault (List Value) × Workspace}, EvaluatesAll scope exprs work depths ended →
    ∀ depth ∈ depths, depth ≤ maxDepth
  | _, _, _, _, .nil => fun _ hmem => absurd hmem List.not_mem_nil
  | _, _, _, _, .fault hfirst => depths_le_of_evaluates hfirst
  | _, _, _, _, .cons hfirst hrest =>
      List.forall_mem_append.mpr ⟨depths_le_of_evaluates hfirst, depths_le_of_evaluatesAll hrest⟩

theorem depths_le_of_calls : ∀ {name : Name} {arguments : List Value} {work : Workspace} {depths : List Nat}
    {ended : Except Fault Value × Workspace}, Calls scope name arguments work depths ended →
    ∀ depth ∈ depths, depth ≤ maxDepth
  | _, _, _, _, _, .missing _ | _, _, _, _, _, .tooDeep _ _ | _, _, _, _, _, .refused _ _ _ =>
      fun _ hmem => absurd hmem List.not_mem_nil
  | _, _, _, _, _, .body henters hbody =>
      List.forall_mem_cons.mpr ⟨henters.depth_le, depths_le_of_evaluates hbody⟩

end

end Rules

section Computes

theorem outcome_eval (scope : Scope) (expr : Expr) (work : Workspace) : (eval scope expr).outcome work =
    (evalWith scope (callUser scope (maxDepth - work.depth)) expr).outcome work := rfl

theorem outcome_eval_of_immediate? {value : Value} (h : expr.immediate? scope work.memory = some value) :
    (eval scope expr).outcome work = (.ok value, work) := by
  rw [outcome_eval]
  cases expr with
  | int _ | single _ | double _ | text _ | truth _ | faultLine | faultCode | cursorRow =>
      cases h
      rw [evalWith]
      rfl
  | scalar name =>
      rw [Expr.immediate?] at h
      split at h
      · cases h
      · cases h
        rw [evalWith, if_neg ‹_›]
        rfl
  | element _ _ | call _ _ | unary _ _ | binary _ _ _ => cases h

theorem outcome_eval_scalar (hname : name.isFunction = true) (work : Workspace) :
    (eval scope (.scalar name)).outcome work = (callUser scope (maxDepth - work.depth) name []).outcome work := by
  rw [outcome_eval, evalWith, if_pos hname]

theorem outcome_eval_element (name : Name) (subscripts : List Expr) (work : Workspace) :
    (eval scope (.element name subscripts)).outcome work =
      followedBy ((evalAll scope subscripts).outcome work) fun values =>
        onMemory (Memory.fetchElement name values) := by
  rw [outcome_eval, evalWith, outcome_bind_eq_followedBy]
  rfl

theorem outcome_eval_call (name : Name) (arguments : List Expr) (work : Workspace) :
    (eval scope (.call name arguments)).outcome work =
      followedBy ((evalAll scope arguments).outcome work) fun values =>
        if name.isFunction then callUser scope (maxDepth - work.depth) name values else callBuiltin name values := by
  rw [outcome_eval, evalWith, outcome_bind_eq_followedBy]
  rfl

theorem outcome_eval_unary (op : UnaryOp) (operand : Expr) (work : Workspace) :
    (eval scope (.unary op operand)).outcome work =
      followedBy ((eval scope operand).outcome work) fun value => liftM (op.apply value) := by
  rw [outcome_eval, evalWith, outcome_bind_eq_followedBy]
  rfl

/-- The second operand finds as many calls open as the first one. -/
theorem outcome_eval_binary (op : BinaryOp) (left right : Expr) (work : Workspace) :
    (eval scope (.binary op left right)).outcome work =
      followedBy ((eval scope left).outcome work) fun l =>
        (do let r ← eval scope right; op.apply l r : Act Workspace Value) := by
  have hdepth := sameDepth_eval scope left work
  rw [outcome_eval, evalWith, outcome_bind_eq_followedBy, ← outcome_eval]
  revert hdepth
  rcases (eval scope left).outcome work with ⟨fault | l, middle⟩
  · exact fun _ => rfl
  · intro hdepth
    dsimp only [followedBy]
    rw [outcome_bind, outcome_bind, outcome_eval, show middle.depth = work.depth from hdepth]

theorem outcome_evalAll_cons_eq_followedBy (expr : Expr) (rest : List Expr) (work : Workspace) :
    (evalAll scope (expr :: rest)).outcome work =
      followedBy ((eval scope expr).outcome work) fun value =>
        (do let values ← evalAll scope rest; return value :: values : Act Workspace (List Value)) := by
  rw [outcome_evalAll_cons, outcome_bind_eq_followedBy]

theorem outcome_callUser_of_missing {fault : Fault} (h : functionFor scope name arguments.length = .error fault)
    (remaining : Nat) (work : Workspace) :
    (callUser scope remaining name arguments).outcome work = (.error fault, work) := by
  cases remaining <;> rw [callUser, outcome_bind, h] <;> rfl

theorem outcome_callUser_of_tooDeep (h : functionFor scope name arguments.length = .ok function)
    (hdeep : maxDepth ≤ work.depth) :
    (callUser scope (maxDepth - work.depth) name arguments).outcome work = (.error (.of .outOfMemory), work) := by
  rw [Nat.sub_eq_zero_of_le hdeep, callUser, outcome_bind, h]
  rfl

/-- Where a call finds its function and room, the parameters take the arguments, and a body is evaluated that finds
room for one call less. -/
theorem outcome_callUser_of_room (h : functionFor scope name arguments.length = .ok function)
    (hroom : work.depth < maxDepth) :
    (callUser scope (maxDepth - work.depth) name arguments).outcome work =
      followedBy ((storeAll (function.parameters.zip arguments)).outcome work) fun _ =>
        ((deeper (evalWith scope (callUser scope (maxDepth - (work.depth + 1))) function.body)).attempt >>=
          conclude name (savedFor function work)) := by
  rw [show maxDepth - work.depth = maxDepth - (work.depth + 1) + 1 by omega, callUser, outcome_bind, h]
  dsimp only [outcome_lift]
  rw [outcome_bind, outcome_get]
  dsimp only
  rw [if_neg (Nat.not_le_of_lt hroom), outcome_bind_eq_followedBy]
  rfl

/-- A call that gets as far as the body evaluates it, closes the call, and goes on with how the body has ended. -/
theorem Enters.outcome_callUser (h : Enters scope name arguments work function inside) {result : Except Fault Value}
    {last : Workspace} (hbody : (eval scope function.body).outcome inside = (result, last)) :
    (callUser scope (maxDepth - work.depth) name arguments).outcome work =
      (conclude name (savedFor function work) result).outcome { last with depth := last.depth - 1 } := by
  have hdepth := h.depth
  obtain ⟨passed, hpassed, rfl⟩ := h.passed
  rw [outcome_eval, hdepth] at hbody
  rw [outcome_callUser_of_room h.found h.room, hpassed]
  dsimp only [followedBy]
  rw [outcome_bind, outcome_attempt, outcome_deeper, hbody]

mutual

/-- Evaluating with a bound on the calls has the outcome that the rules give. -/
theorem outcome_eval_of_evaluates : ∀ {expr : Expr} {work : Workspace} {depths : List Nat}
    {ended : Except Fault Value × Workspace}, Evaluates scope expr work depths ended →
    (eval scope expr).outcome work = ended
  | _, _, _, _, .immediate h => outcome_eval_of_immediate? h
  | _, _, _, _, .constant hname hcall => by rw [outcome_eval_scalar hname, outcome_callUser_of_calls hcall]
  | _, _, _, _, .element hall => by rw [outcome_eval_element, outcome_evalAll_of_evaluatesAll hall]
  | _, _, _, _, .builtin hname hall => by
      rw [outcome_eval_call, outcome_evalAll_of_evaluatesAll hall]
      simp only [hname, Bool.false_eq_true, if_false]
  | _, _, _, _, .callFault _ hall => by rw [outcome_eval_call, outcome_evalAll_of_evaluatesAll hall, followedBy]
  | _, work, _, _, @Evaluates.call _ name arguments _ middle _ _ _ _ hname hall hcall => by
      have hdepth : middle.depth = work.depth := by
        have hsame := sameDepth_evalAll scope arguments work
        rwa [outcome_evalAll_of_evaluatesAll hall] at hsame
      rw [outcome_eval_call, outcome_evalAll_of_evaluatesAll hall, followedBy, if_pos hname, ← hdepth,
        outcome_callUser_of_calls hcall]
  | _, _, _, _, .unary hoperand => by rw [outcome_eval_unary, outcome_eval_of_evaluates hoperand]
  | _, _, _, _, .binaryFault hleft => by rw [outcome_eval_binary, outcome_eval_of_evaluates hleft, followedBy]
  | _, _, _, _, .binary hleft hright => by
      rw [outcome_eval_binary, outcome_eval_of_evaluates hleft, followedBy, outcome_bind_eq_followedBy,
        outcome_eval_of_evaluates hright]

theorem outcome_evalAll_of_evaluatesAll : ∀ {exprs : List Expr} {work : Workspace} {depths : List Nat}
    {ended : Except Fault (List Value) × Workspace}, EvaluatesAll scope exprs work depths ended →
    (evalAll scope exprs).outcome work = ended
  | _, _, _, _, .nil => rfl
  | _, _, _, _, .fault hfirst => by
      rw [outcome_evalAll_cons_eq_followedBy, outcome_eval_of_evaluates hfirst, followedBy]
  | _, _, _, _, .cons hfirst hrest => by
      rw [outcome_evalAll_cons_eq_followedBy, outcome_eval_of_evaluates hfirst, followedBy, outcome_bind_eq_followedBy,
        outcome_evalAll_of_evaluatesAll hrest]

theorem outcome_callUser_of_calls : ∀ {name : Name} {arguments : List Value} {work : Workspace} {depths : List Nat}
    {ended : Except Fault Value × Workspace}, Calls scope name arguments work depths ended →
    (callUser scope (maxDepth - work.depth) name arguments).outcome work = ended
  | _, _, _, _, _, .missing h => outcome_callUser_of_missing h _ _
  | _, _, _, _, _, .tooDeep h hdeep => outcome_callUser_of_tooDeep h hdeep
  | _, _, _, _, _, .refused h hroom hrefused => by rw [outcome_callUser_of_room h hroom, hrefused, followedBy]
  | _, _, _, _, _, .body henters hbody => henters.outcome_callUser (outcome_eval_of_evaluates hbody)

end

/-- Evaluating closes every call that it opens. -/
theorem depth_eq_of_evaluates {ended : Except Fault Value × Workspace} (h : Evaluates scope expr work depths ended) :
    ended.2.depth = work.depth := by
  have hsame := sameDepth_eval scope expr work
  rwa [outcome_eval_of_evaluates h] at hsame

theorem depth_eq_of_evaluatesAll {ended : Except Fault (List Value) × Workspace}
    (h : EvaluatesAll scope exprs work depths ended) : ended.2.depth = work.depth := by
  have hsame := sameDepth_evalAll scope exprs work
  rwa [outcome_evalAll_of_evaluatesAll h] at hsame

end Computes

section Ends

/-- Evaluating the one expression asks for evaluating the other, from that workspace on. -/
inductive Asks (scope : Scope) : Expr × Workspace → Expr × Workspace → Prop
  | operand {op : UnaryOp} {operand : Expr} {work : Workspace} : Asks scope (.unary op operand, work) (operand, work)
  | left {op : BinaryOp} {left right : Expr} {work : Workspace} : Asks scope (.binary op left right, work) (left, work)
  | right {op : BinaryOp} {left right : Expr} {work middle : Workspace} {depths : List Nat} {l : Value}
      (h : Evaluates scope left work depths (.ok l, middle)) :
      Asks scope (.binary op left right, work) (right, middle)
  | subscript {name : Name} {front back : List Expr} {expr : Expr} {work middle : Workspace} {depths : List Nat}
      {values : List Value} (h : EvaluatesAll scope front work depths (.ok values, middle)) :
      Asks scope (.element name (front ++ expr :: back), work) (expr, middle)
  | argument {name : Name} {front back : List Expr} {expr : Expr} {work middle : Workspace} {depths : List Nat}
      {values : List Value} (h : EvaluatesAll scope front work depths (.ok values, middle)) :
      Asks scope (.call name (front ++ expr :: back), work) (expr, middle)
  | constantBody {name : Name} {work inside : Workspace} {function : UserFunction}
      (hname : name.isFunction = true) (h : Enters scope name [] work function inside) :
      Asks scope (.scalar name, work) (function.body, inside)
  | callBody {name : Name} {arguments : List Expr} {work middle inside : Workspace} {depths : List Nat}
      {values : List Value} {function : UserFunction} (hname : name.isFunction = true)
      (hall : EvaluatesAll scope arguments work depths (.ok values, middle))
      (h : Enters scope name values middle function inside) :
      Asks scope (.call name arguments, work) (function.body, inside)

/-- The room that is left for calls, and how big the expression is. -/
noncomputable def rank (task : Expr × Workspace) : Nat × Nat := (maxDepth - task.2.depth, sizeOf task.1)

/-- A part of an expression, which finds as many calls open as the whole, is the smaller expression. -/
theorem rank_lt_of_part {part whole : Expr} (hdepth : middle.depth = work.depth) (hsize : sizeOf part < sizeOf whole) :
    Prod.Lex (· < ·) (· < ·) (rank (part, middle)) (rank (whole, work)) := by
  unfold rank
  rw [hdepth]
  exact .right _ hsize

theorem rank_lt_of_member (front back : List Expr) {part whole : Expr} (hdepth : middle.depth = work.depth)
    (hsize : sizeOf (front ++ part :: back) < sizeOf whole) :
    Prod.Lex (· < ·) (· < ·) (rank (part, middle)) (rank (whole, work)) :=
  have hmem : part ∈ front ++ part :: back := List.mem_append_right front List.mem_cons_self
  rank_lt_of_part hdepth (Nat.lt_trans (List.sizeOf_lt_of_mem hmem) hsize)

/-- The body of a function, which may be larger than the call, finds room for one call less. -/
theorem rank_lt_of_enters {whole : Expr} (hdepth : middle.depth = work.depth)
    (h : Enters scope name arguments middle function inside) :
    Prod.Lex (· < ·) (· < ·) (rank (function.body, inside)) (rank (whole, work)) := by
  have hroom := h.room
  refine .left _ _ ?_
  rw [h.depth, hdepth]
  rw [hdepth] at hroom
  change maxDepth - (work.depth + 1) < maxDepth - work.depth
  omega

/-- **What an evaluation asks for has less room for calls, or as much and a smaller expression.** -/
theorem rank_lt_of_asks {whole part : Expr × Workspace} (h : Asks scope whole part) :
    Prod.Lex (· < ·) (· < ·) (rank part) (rank whole) := by
  cases h with
  | operand => exact rank_lt_of_part rfl (by simp only [Expr.unary.sizeOf_spec]; omega)
  | left => exact rank_lt_of_part rfl (by simp only [Expr.binary.sizeOf_spec]; omega)
  | right hleft =>
      exact rank_lt_of_part (depth_eq_of_evaluates hleft) (by simp only [Expr.binary.sizeOf_spec]; omega)
  | @subscript _ front back _ _ _ _ _ hfront =>
      exact rank_lt_of_member front back (depth_eq_of_evaluatesAll hfront)
        (by simp only [Expr.element.sizeOf_spec]; omega)
  | @argument _ front back _ _ _ _ _ hfront =>
      exact rank_lt_of_member front back (depth_eq_of_evaluatesAll hfront)
        (by simp only [Expr.call.sizeOf_spec]; omega)
  | constantBody _ henters => exact rank_lt_of_enters rfl henters
  | callBody _ hall henters => exact rank_lt_of_enters (depth_eq_of_evaluatesAll hall) henters

/-- No evaluation asks for others without end. -/
theorem wellFounded_asks (scope : Scope) : WellFounded fun part whole => Asks scope whole part :=
  Subrelation.wf rank_lt_of_asks (InvImage.wf rank (Prod.lex Nat.lt_wfRel Nat.lt_wfRel).wf)

/-- Expressions are evaluated one after another where each of them is, once those in front of it have values. -/
theorem exists_evaluatesAll (exprs : List Expr) (work : Workspace)
    (h : ∀ front expr back, exprs = front ++ expr :: back → ∀ depths values middle,
      EvaluatesAll scope front work depths (.ok values, middle) →
      ∃ depths ended, Evaluates scope expr middle depths ended) :
    ∃ depths ended, EvaluatesAll scope exprs work depths ended := by
  induction exprs generalizing work with
  | nil => exact ⟨_, _, .nil⟩
  | cons expr rest ih =>
      obtain ⟨depths, ⟨fault | value, middle⟩, hfirst⟩ := h [] expr rest rfl _ _ _ .nil
      · exact ⟨_, _, .fault hfirst⟩
      · obtain ⟨later, ended, hrest⟩ := ih middle fun front other back hsplit _ _ last hfront =>
          h (expr :: front) other back (congrArg (expr :: ·) hsplit) _ _ last (.cons hfirst hfront)
        exact ⟨_, _, .cons hfirst hrest⟩

/-- A call is carried out where the body of the function is, if it gets that far. -/
theorem exists_calls
    (h : ∀ function inside, Enters scope name arguments work function inside →
      ∃ depths ended, Evaluates scope function.body inside depths ended) :
    ∃ depths ended, Calls scope name arguments work depths ended := by
  cases hfound : functionFor scope name arguments.length with
  | error fault => exact ⟨_, _, .missing hfound⟩
  | ok function =>
      by_cases hroom : work.depth < maxDepth
      · rcases hpassed : (storeAll (function.parameters.zip arguments)).outcome work with ⟨fault | ⟨⟩, passed⟩
        · exact ⟨_, _, .refused hfound hroom hpassed⟩
        · have henters : Enters scope name arguments work function { passed with depth := passed.depth + 1 } :=
            ⟨hfound, hroom, passed, hpassed, rfl⟩
          obtain ⟨depths, ⟨result, last⟩, hbody⟩ := h function _ henters
          exact ⟨_, _, .body henters hbody⟩
      · exact ⟨_, _, .tooDeep hfound (Nat.le_of_not_lt hroom)⟩

/-- An expression is evaluated where all that it asks for is. -/
theorem exists_evaluates_of_asks
    (h : ∀ part, Asks scope (expr, work) part → ∃ depths ended, Evaluates scope part.1 part.2 depths ended) :
    ∃ depths ended, Evaluates scope expr work depths ended := by
  cases expr with
  | int _ | single _ | double _ | text _ | truth _ | faultLine | faultCode | cursorRow =>
      exact ⟨_, _, .immediate rfl⟩
  | scalar name =>
      cases hname : name.isFunction with
      | false => exact ⟨_, _, .immediate (by rw [Expr.immediate?, hname]; rfl)⟩
      | true =>
          obtain ⟨depths, ended, hcall⟩ := exists_calls fun function inside henters =>
            h (function.body, inside) (.constantBody hname henters)
          exact ⟨_, _, .constant hname hcall⟩
  | element name subscripts =>
      obtain ⟨depths, ended, hall⟩ := exists_evaluatesAll subscripts work
        fun front part back hsplit _ _ middle hfront =>
          h (part, middle) (by rw [hsplit]; exact .subscript hfront)
      exact ⟨_, _, .element hall⟩
  | call name arguments =>
      obtain ⟨depths, ⟨fault | values, middle⟩, hall⟩ :=
        exists_evaluatesAll arguments work
          fun front part back hsplit _ _ middle hfront =>
            h (part, middle) (by rw [hsplit]; exact .argument hfront)
      · cases hname : name.isFunction with
        | false => exact ⟨_, _, .builtin hname hall⟩
        | true => exact ⟨_, _, .callFault hname hall⟩
      · cases hname : name.isFunction with
        | false => exact ⟨_, _, .builtin hname hall⟩
        | true =>
            obtain ⟨later, ended, hcall⟩ := exists_calls fun function inside henters =>
              h (function.body, inside) (.callBody hname hall henters)
            exact ⟨_, _, .call hname hall hcall⟩
  | unary op operand =>
      obtain ⟨depths, ended, hoperand⟩ := h _ .operand
      exact ⟨_, _, .unary hoperand⟩
  | binary op left right =>
      obtain ⟨depths, ⟨fault | l, middle⟩, hleft⟩ := h _ .left
      · exact ⟨_, _, .binaryFault hleft⟩
      · obtain ⟨later, ended, hright⟩ := h _ (.right hleft)
        exact ⟨_, _, .binary hleft hright⟩

theorem exists_evaluates (scope : Scope) (expr : Expr) (work : Workspace) :
    ∃ depths ended, Evaluates scope expr work depths ended :=
  (wellFounded_asks scope).induction
    (C := fun task => ∃ depths ended, Evaluates scope task.1 task.2 depths ended) (expr, work)
    fun _ ih => exists_evaluates_of_asks ih

/-- **Evaluation ends**, whatever the functions of the program are. What an evaluation asks for has less room for
calls, or as much and a smaller expression, so that every expression and every row of expressions is evaluated from
every workspace on, by the rules that bound nothing. The outcome is the one that is computed with a bound on the calls.
Every body on the way is evaluated with at most as many calls open as the limit, and behind a value as behind a fault
as many calls are open as before. -/
theorem evaluation_ends (scope : Scope) :
    (∀ whole part, Asks scope whole part → Prod.Lex (· < ·) (· < ·) (rank part) (rank whole)) ∧
    (∀ expr work, ∃ depths ended, Evaluates scope expr work depths ended) ∧
    (∀ expr work depths ended, Evaluates scope expr work depths ended →
      (eval scope expr).outcome work = ended ∧ (∀ depth ∈ depths, depth ≤ maxDepth) ∧
        ended.2.depth = work.depth) ∧
    (∀ exprs work, ∃ depths ended, EvaluatesAll scope exprs work depths ended) ∧
    ∀ exprs work depths ended, EvaluatesAll scope exprs work depths ended →
      (evalAll scope exprs).outcome work = ended ∧ (∀ depth ∈ depths, depth ≤ maxDepth) ∧
        ended.2.depth = work.depth := by
  refine ⟨fun _ _ => rank_lt_of_asks, exists_evaluates scope, fun _ _ _ _ h => ?_, fun exprs work => ?_,
    fun _ _ _ _ h => ?_⟩
  · exact ⟨outcome_eval_of_evaluates h, depths_le_of_evaluates h, depth_eq_of_evaluates h⟩
  · exact exists_evaluatesAll exprs work fun _ expr _ _ _ _ middle _ => exists_evaluates scope expr middle
  · exact ⟨outcome_evalAll_of_evaluatesAll h, depths_le_of_evaluatesAll h, depth_eq_of_evaluatesAll h⟩

/-- Two functions that call each other without end. -/
def callingEachOther : Scope where
  functions := (Std.TreeMap.empty.insert "FNA" ⟨[⟨"X"⟩], .binary .add (.call ⟨"FNB"⟩ [.scalar ⟨"X"⟩]) (.int 1)⟩).insert
    "FNB" ⟨[⟨"X"⟩], .call ⟨"FNA"⟩ [.scalar ⟨"X"⟩]⟩

theorem evaluation_ends_callingEachOther :
    ∃ depths ended, Evaluates callingEachOther (.call ⟨"FNA"⟩ [.int 7]) {} depths ended ∧
      ended.1 = .error (.of .outOfMemory) ∧ (∀ depth ∈ depths, depth ≤ maxDepth) ∧ ended.2.depth = 0 := by
  have hfault : ((eval callingEachOther (.call ⟨"FNA"⟩ [.int 7])).outcome {}).1 = .error (.of .outOfMemory) := by
    decide +kernel
  obtain ⟨-, hends, hcomputes, -⟩ := evaluation_ends callingEachOther
  obtain ⟨depths, ended, heval⟩ := hends (.call ⟨"FNA"⟩ [.int 7]) {}
  obtain ⟨houtcome, hdepths, hdepth⟩ := hcomputes _ _ _ _ heval
  exact ⟨depths, ended, heval, houtcome ▸ hfault, hdepths, hdepth⟩

/-- A function that does nothing but call itself is entered as often as the limit allows, and then memory runs out. -/
theorem evaluates_selfCalling (hname : name.isFunction = true)
    (h : functionFor scope name 0 = .ok ⟨[], .scalar name⟩) (hdepth : work.depth ≤ maxDepth) :
    Evaluates scope (.scalar name) work (List.range' (work.depth + 1) (maxDepth - work.depth))
      (.error (.of .outOfMemory), work) := by
  induction hroom : maxDepth - work.depth generalizing work with
  | zero => exact .constant hname (.tooDeep h (Nat.sub_eq_zero_iff_le.mp hroom))
  | succ room ih =>
      have henters : Enters scope name [] work ⟨[], .scalar name⟩ { work with depth := work.depth + 1 } :=
        ⟨h, by omega, work, rfl, rfl⟩
      have hbody := ih henters.depth_le (by dsimp only; omega)
      exact .constant hname (.body henters hbody)

end Ends

end Workspace

end LineBasic
