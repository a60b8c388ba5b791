import LineBasic.Session.Eval
import LineBasic.Session.Keys
import LineBasic.Session.Settings
import LineBasic.Stack

/-! The state of an interpreter session, and what is common to its statements. -/

namespace LineBasic

inductive RunState where
  | idle
  | running
  /-- Running an error handler. -/
  | trapped
  | stopped
  deriving Repr, DecidableEq

/-- What to do with a file that was asked for. -/
inductive LoadKind where
  | load (run : Bool)
  | merge
  | chain (line : Option Nat) (all : Bool)
  deriving Repr, DecidableEq

structure LoadRequest where
  path : String
  kind : LoadKind
  deriving Repr, DecidableEq

/-- What a session reports to its host. -/
inductive Event where
  | stopped
  | running
  | print (text : String)
  | faults (list : List Fault)
  /-- The host fetches a file and hands it in. -/
  | load (request : LoadRequest)
  /-- The host shows the files that match a pattern. -/
  | files (pattern : String)
  deriving Repr, DecidableEq

/-- An open loop or subroutine. -/
inductive Frame where
  | gosub (back : Option Cursor)
  | forLoop (counter : Name) (limit step : Value) (body : Option Cursor)
  | whileLoop (start : Cursor)
  deriving DecidableEq

namespace Frame

def isGosub : Frame → Bool
  | gosub _ => true
  | _ => false

/-- Whether the frame is that of a loop over a counter. -/
def countsOver (counter : Name) : Frame → Bool
  | forLoop name _ _ _ => name = counter
  | _ => false

/-- Whether the frame is that of a FOR loop. -/
def isFor : Frame → Bool
  | forLoop _ _ _ _ => true
  | _ => false

end Frame

structure Session where
  program : Program := {}
  settings : Settings := {}
  work : Workspace := {}
  functions : Std.TreeMap String UserFunction := ∅
  stack : Stack Frame := .empty "STACK OVERFLOW"
  /-- The items of the program's DATA statements, once they were needed. -/
  data : Option (List DataItem) := none
  dataPosition : Nat := 0
  state : RunState := .idle
  /-- The statement to be carried out next. -/
  cursor : Option Cursor := none
  /-- The statement carried out last. -/
  current : Cursor := .start none
  traced : Option Nat := none
  /-- What is still to be reported, the oldest first. -/
  events : List Event := []
  /-- Direct lines that were entered while another one was running. -/
  waiting : List Line := []
  loading : Option LoadRequest := none
  keys : Keys := {}
  /-- The number of characters printed since the last line feed. -/
  column : Nat := 0

/-- The column after a text was printed from a column on. -/
def columnAfter (column : Nat) (text : String) : Nat :=
  let chars := text.toList
  if chars.contains '\n' then (chars.reverse.takeWhile (· != '\n')).length
  else column + chars.length

/-- Adds a text to the events, at the end of a text that is last among them. -/
def appendPrint (text : String) : List Event → List Event
  | [] => [.print text]
  | [.print before] => [.print (before ++ text)]
  | event :: rest => event :: appendPrint text rest

namespace Session

/-- A new session, with a generator of random numbers that is in some state. -/
def new (random : Random) : Session := { work := { random } }

def isRunning (session : Session) : Bool :=
  session.state = .running || session.state = .trapped

/-- Whether a direct line has to wait. -/
def isBusy (session : Session) : Bool :=
  session.isRunning || session.loading.isSome || !session.waiting.isEmpty

/-- The number that the next line will get from AUTO. -/
def autoLine (session : Session) : Option Nat := session.settings.auto.map (·.next)

def scope (session : Session) : Scope :=
  ⟨session.functions, session.settings.faultCode, session.settings.faultLine⟩

/-- Prints a text. -/
def print (session : Session) (text : String) : Session :=
  { session with
    column := columnAfter session.column text
    events := appendPrint text session.events }

/-- Reports an event. -/
def report (session : Session) (event : Event) : Session :=
  { session with events := session.events ++ [event] }

/-- Ends a run. -/
def halt (session : Session) (state : RunState) : Session :=
  { session with state, cursor := none, traced := none }

/-- Forgets variables, functions, open loops, the DATA position and the error handler. -/
def clear (session : Session) : Session :=
  { session with
    work := { session.work with memory := .empty }
    functions := ∅
    stack := session.stack.clear
    data := none
    dataPosition := 0
    settings := { session.settings.clearTrap with restart := none }
    state := if session.state = .trapped then .running else session.state }

/-- Says in which line a run was broken off. -/
def breakMessage (session : Session) (line : Nat) : Session :=
  session.print ((if session.column > 0 then "\n" else "") ++ "Break in " ++ toString line ++ "\n")

/-- Breaks off a run in its current statement. On a numbered line CONT can go on after it. -/
def breakOff (session : Session) : Session :=
  match session.current.line with
  | some line =>
      let told := session.breakMessage line
      { told with settings := { told.settings with restart := told.cursor } }.halt .stopped
  | none => session.halt .stopped

/-- Starts a direct line. -/
def startDirect (session : Session) (line : Line) : Session :=
  { session with
    program := session.program.insert line
    cursor := some (.start none)
    state := .running }

end Session

/-- An action on a session. -/
abbrev SessionAct (α : Type) := Act Session α

namespace SessionAct

/-- An action on the workspace. -/
def onWork {α : Type} (action : Act Workspace α) : SessionAct α :=
  action.onPart Session.work fun session work => { session with work }

/-- Evaluates an expression. -/
def eval (expr : Expr) : SessionAct Value := do
  let session ← get
  onWork (Workspace.eval session.scope expr)

/-- Evaluates expressions from left to right. -/
def evalAll (exprs : List Expr) : SessionAct (List Value) := do
  let session ← get
  onWork (Workspace.evalAll session.scope exprs)

/-- Evaluates an expression to an integer. -/
def evalInt (expr : Expr) : SessionAct Int16 := do
  let value ← eval expr
  value.toInt

/-- Evaluates an expression to a text. -/
def evalText (expr : Expr) : SessionAct String := do
  let value ← eval expr
  value.toText

/-- Evaluates the positional arguments that are there to integers. -/
def evalInts : List (Option Expr) → SessionAct (List (Option Int16))
  | [] => return []
  | some expr :: rest => do
      let n ← evalInt expr
      return some n :: (← evalInts rest)
  | none :: rest => do return none :: (← evalInts rest)

/-- Changes memory by a step that may fail. -/
def changeMemory (step : Memory → Except Fault Memory) : SessionAct Unit := do
  let session ← get
  let memory ← step session.work.memory
  set { session with work := { session.work with memory } }

/-- Stores a value into a scalar. -/
def storeScalar (name : Name) (value : Value) : SessionAct Unit :=
  changeMemory fun memory => memory.store name value

/-- Stores a value into a scalar or an array element. -/
def store (target : Variable) (value : Value) : SessionAct Unit := do
  match target with
  | .scalar name => storeScalar name value
  | .element name subscripts =>
      let values ← evalAll subscripts
      onWork (Workspace.onMemory (Memory.storeElement name values value))

/-- Changes the settings. -/
def changeSettings (change : Settings → Settings) : SessionAct Unit :=
  modify fun session => { session with settings := change session.settings }

/-- Goes on at a cursor. -/
def goOnAt (cursor : Option Cursor) : SessionAct Unit :=
  modify fun session => { session with cursor }

/-- The first statement of a line, which has to be there. -/
def lineStart (line : Nat) : SessionAct Cursor := do
  let session ← get
  session.program.start line

end SessionAct

end LineBasic
