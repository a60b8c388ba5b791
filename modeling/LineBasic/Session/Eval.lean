import LineBasic.Code.Expr
import LineBasic.Memory
import LineBasic.Value.Builtin

/-! Evaluation of expressions. Evaluating may change memory in two ways only: an array gets its
dimensions when an element is first read, and the parameters of a function of the program are
variables that hold the arguments while its body is evaluated. Calls nest to a limited depth, so
evaluation ends for every set of definitions. -/

namespace LineBasic

/-- A function defined by the program. -/
structure UserFunction where
  parameters : List Name
  body : Expr
  deriving DecidableEq

/-- What expressions read and never change: the functions of the program and the last fault. -/
structure Scope where
  functions : Std.TreeMap String UserFunction := ∅
  faultCode : Nat := 0
  faultLine : Option Nat := none

/-- What evaluation works on: memory, the random numbers, and how many calls are open. -/
structure Workspace where
  memory : Memory := {}
  random : Random := {}
  depth : Nat := 0

namespace Workspace

/-- The greatest number of open calls. -/
def maxDepth : Nat := 64

/-- Stores values into scalars one after another, up to the first that fails. -/
def storeAll : List (Name × Value) → Act Workspace Unit
  | [] => return ()
  | (name, value) :: rest => do
      let work ← get
      let memory ← work.memory.store name value
      set { work with memory }
      storeAll rest

/-- An action on memory. -/
def onMemory {α : Type} (action : Act Memory α) : Act Workspace α :=
  action.onPart Workspace.memory fun work memory => { work with memory }

/-- Calls a built-in function. -/
def callBuiltin (name : Name) (arguments : List Value) : Act Workspace Value := do
  let work ← get
  let (value, random) ← work.random.call name.spelling arguments
  set { work with random }
  return value

mutual

/-- Evaluates an expression, given what a call of a function of the program does. -/
def evalWith (scope : Scope) (call : Name → List Value → Act Workspace Value) :
    Expr → Act Workspace Value
  | .int n => return .int n
  | .single x => return .single x
  | .double x => return .double x
  | .text s => return .text s
  | .truth b => return .ofBool b
  | .scalar name =>
      if name.isFunction then call name [] else do return (← get).memory.fetch name
  | .element name subscripts => do
      let values ← evalAllWith scope call subscripts
      onMemory (Memory.fetchElement name values)
  | .call name arguments => do
      let values ← evalAllWith scope call arguments
      if name.isFunction then call name values else callBuiltin name values
  | .unary op operand => do
      let value ← evalWith scope call operand
      op.apply value
  | .binary op left right => do
      let l ← evalWith scope call left
      let r ← evalWith scope call right
      op.apply l r
  | .faultLine => return .single (Float32.ofNat (scope.faultLine.getD 65535))
  | .faultCode => return .int (Int16.ofNat scope.faultCode)
  | .cursorRow => return .int 1

/-- Evaluates expressions from left to right. -/
def evalAllWith (scope : Scope) (call : Name → List Value → Act Workspace Value) :
    List Expr → Act Workspace (List Value)
  | [] => return []
  | expr :: rest => do
      let value ← evalWith scope call expr
      return value :: (← evalAllWith scope call rest)

end

/-- The function of a name, which has to take so many arguments. -/
def functionFor (scope : Scope) (name : Name) (count : Nat) : Except Fault UserFunction :=
  match scope.functions[name.spelling]? with
  | none => throw (.of .undefinedFunction)
  | some function =>
      if function.parameters.length = count then return function
      else throw (.of .syntaxError)

/-- Carries out an action with one more call open. -/
def deeper {α : Type} (action : Act Workspace α) : Act Workspace α := do
  modify fun work => { work with depth := work.depth + 1 }
  let result ← action.attempt
  modify fun work => { work with depth := work.depth - 1 }
  result

/-- Calls a function of the program, where at most `remaining` calls may open inside one another. The
parameters get their values back after the body, whether it failed or not. -/
def callUser (scope : Scope) : Nat → Name → List Value → Act Workspace Value
  | 0, name, arguments => do
      let _ ← functionFor scope name arguments.length
      throw (.of .outOfMemory)
  | remaining + 1, name, arguments => do
      let function ← functionFor scope name arguments.length
      let work ← get
      if work.depth ≥ maxDepth then throw (.of .outOfMemory)
      else
        storeAll (function.parameters.zip arguments)
        let result ← (deeper (evalWith scope (callUser scope remaining) function.body)).attempt
        storeAll (function.parameters.map fun name => (name, work.memory.fetch name))
        let value ← result
        if (name.type == .text) = value.isText then return value else throw (.of .typeMismatch)

/-- Evaluates an expression. -/
def eval (scope : Scope) (expr : Expr) : Act Workspace Value := do
  let work ← get
  evalWith scope (callUser scope (maxDepth - work.depth)) expr

/-- Evaluates expressions from left to right. -/
def evalAll (scope : Scope) (exprs : List Expr) : Act Workspace (List Value) := do
  let work ← get
  evalAllWith scope (callUser scope (maxDepth - work.depth)) exprs

end Workspace

end LineBasic
