import LineBasic.Session.Loops

/-! The statements: what each does to a session. -/

namespace LineBasic

/-- The width of the zones that a comma in PRINT moves to. -/
def printZone : Nat := 14

/-- Whether an unquoted DATA item may be read as a number, by its characters. -/
def isNumericItem (item : List Char) : Bool :=
  let trimmed := Text.trim item
  !trimmed.isEmpty &&
    trimmed.all fun c =>
      c.isDigit || c == '+' || c == '-' || c == '.' || c.toUpper == 'E' || c.toUpper == 'D' ||
        c == ' '

/-- Positional arguments over older ones: a position that is left empty keeps its value. -/
def mergeArguments (old : List Int16) (new : List (Option Int16)) : List Int16 :=
  new.mapIdx fun index argument => argument.getD (old[index]?.getD 0)

namespace SessionAct

/-- Asks the host for a file. -/
def requestLoad (path : Expr) (kind : LoadKind) : SessionAct Unit := do
  let text ← evalText path
  modify fun session => { session with loading := some ⟨text, kind⟩ }

/-- Declares arrays one after another; a scalar needs no declaration. -/
def dim : List Variable → SessionAct Unit
  | [] => return ()
  | .scalar _ :: rest => dim rest
  | .element name subscripts :: rest => do
      let values ← evalAll subscripts
      changeMemory fun memory => memory.declare name values
      dim rest

/-- Raises a fault by its number. -/
def raiseCode (code : Expr) : SessionAct Unit := do
  let n ← evalInt code
  if 1 ≤ n ∧ n ≤ 255 then throw ⟨n.toInt.toNat, none, ""⟩
  else throw (.of .illegalFunctionCall)

/-- Assigns a text of at most fifteen characters to a function key. -/
def assignKey (number text : Expr) : SessionAct Unit := do
  let n ← evalInt number
  if 1 ≤ n ∧ n ≤ 14 then
    let whole ← evalText text
    modify fun session =>
      { session with
        keys := session.keys.assign (functionKeyName n.toInt.toNat)
          (String.ofList (whole.toList.take 15)) }
  else throw (.of .illegalFunctionCall)

/-- Carries out IF: goes on in the chosen branch, or after the IF when that is empty. -/
def choose (condition : Expr) : SessionAct Unit := do
  let value ← eval condition
  let branch := if ← value.isTrue then 0 else 1
  let session ← get
  match session.program.enterBranch? session.current branch with
  | some cursor => goOnAt (some cursor)
  | none => return ()

def newProgram : SessionAct Unit :=
  modify fun session =>
    { ({ session with program := .empty } : Session).clear with settings := {} }.halt .idle

/-- ON ERROR GOTO: sets the error handler. Line 0 takes it back, and in a handler it raises the fault
being handled again. -/
def onError (line : Nat) : SessionAct Unit := do
  if line = 0 then
    changeSettings fun settings => { settings with onError := none }
    let session ← get
    if session.state = .trapped then
      set { session with state := .running }
      throw ⟨session.settings.faultCode, session.settings.faultLine, ""⟩
    else return ()
  else
    let _ ← lineStart line
    changeSettings fun settings => { settings with onError := some line }

def palette (arguments : List (Option Expr)) : SessionAct Unit := do
  match ← evalInts arguments with
  | [] => changeSettings fun settings => { settings with palette := ∅ }
  | [some index, some color] =>
      changeSettings fun settings =>
        { settings with palette := settings.palette.insert index color }
  | _ => throw (.of .illegalFunctionCall)

/-- The text of PRINT items, after the text of the items before them. -/
def printText (column : Nat) (text : String) : List PrintItem → SessionAct String
  | [] => return text
  | .expr expr :: rest => do
      match ← eval expr with
      | .text s => printText column (text ++ s) rest
      | value => printText column (text ++ value.display ++ " ") rest
  | .comma :: rest =>
      let blanks := printZone - columnAfter column text % printZone
      printText column (text ++ String.ofList (List.replicate blanks ' ')) rest
  | .semicolon :: rest => printText column text rest

/-- Whether a list of PRINT items ends without a line feed. -/
def staysOnLine (items : List PrintItem) : Bool :=
  match items.getLast? with
  | some .comma | some .semicolon => true
  | _ => false

def printItems (items : List PrintItem) : SessionAct Unit := do
  let column := (← get).column
  let text ← printText column "" items
  modify fun session => session.print (if staysOnLine items then text else text ++ "\n")

/-- The items of the program's DATA statements, gathered when they are first needed. -/
def dataItems : SessionAct (List DataItem) := do
  let session ← get
  let items := session.data.getD session.program.data
  set { session with data := some items }
  return items

/-- The next DATA item as a value for a variable. An unquoted item is a number for a numeric variable
if its characters allow it, and blank text is zero. -/
def readItem (target : Variable) : SessionAct Value := do
  let items ← dataItems
  let session ← get
  match items[session.dataPosition]? with
  | none => throw (.of .outOfData)
  | some item =>
      set { session with dataPosition := session.dataPosition + 1 }
      if target.name.type = .text then return .text item.datum.text
      else
        match item.datum with
        | .raw text =>
            if (Text.trim text.toList).isEmpty then return .int 0
            else if isNumericItem text.toList then return .ofNumericText text
            else throw ((Fault.of .syntaxError).inLine (some item.line))
        | .quoted _ => throw ((Fault.of .syntaxError).inLine (some item.line))

def read : List Variable → SessionAct Unit
  | [] => return ()
  | target :: rest => do
      let value ← readItem target
      store target value
      read rest

/-- Moves the DATA position to the start, or to the first item that does not stand before a line. -/
def restore (line : Option Nat) : SessionAct Unit := do
  modify fun session => { session with dataPosition := 0 }
  match line with
  | none => return ()
  | some number =>
      let _ ← lineStart number
      let items ← dataItems
      let position := (items.findIdx? fun item => number ≤ item.line).getD items.length
      modify fun session => { session with dataPosition := position }

/-- Leaves the error handler. -/
def resume (target : ResumeAt) : SessionAct Unit := do
  let session ← get
  match session.state, session.settings.resume with
  | .trapped, some failed =>
      set { session with
        state := .running
        settings := { session.settings with resume := none } }
      match target with
      | .retry => goOnAt (some failed)
      | .next => goOnAt (session.program.advance? failed)
      | .line number => goto number
  | _, _ => throw (.of .resumeWithoutError)

/-- Runs the program from its start or from a line, with everything cleared. -/
def run (line : Option Nat) : SessionAct Unit := do
  let start ←
    match line with
    | some number => some <$> lineStart number
    | none => (fun (session : Session) => session.program.firstCursor?) <$> get
  modify fun session => { session.clear with cursor := start, state := .running }

/-- Goes on where a run was broken off. -/
def cont : SessionAct Unit := do
  let session ← get
  match session.settings.restart with
  | some cursor =>
      set { session with
        cursor := some cursor
        state := .running
        settings := { session.settings with restart := none } }
  | none => throw (.of .cannotContinue)

/-- Ends the run; CONT can go on after it. An error handler may not end a run. -/
def finish : SessionAct Unit := do
  let session ← get
  if session.state = .trapped then throw (.of .noResume)
  else
    let restart :=
      if session.current.line.isSome then session.cursor else session.settings.restart
    set ({ session with settings := { session.settings with restart } }.halt .stopped)

/-- Carries out a command. -/
def command : Command → SessionAct Unit
  | .auto start step =>
      modify fun session =>
        { session with
          settings := { session.settings with
            auto := some ⟨start.getD 10, step.getD 10⟩ } }.halt .idle
  | .beep => modify fun session => session.print "\x07"
  | .chain path line all => requestLoad path (.chain line all)
  | .clear arguments => do
      let _ ← evalInts arguments
      modify Session.clear
  | .clearScreen => modify fun session => { session with column := 0 }
  | .color arguments => do
      let values ← evalInts arguments
      changeSettings fun settings =>
        { settings with color := mergeArguments settings.color values }
  | .common _ | .data _ | .remark _ => return ()
  | .cont => cont
  | .define name parameters body =>
      modify fun session =>
        { session with functions := session.functions.insert name.spelling ⟨parameters, body⟩ }
  | .dim targets => dim targets
  | .finish => finish
  | .error code => raiseCode code
  | .files pattern => do
      let text ←
        match pattern with
        | some expr => evalText expr
        | none => pure ""
      modify fun session => session.report (.files text)
  | .forLoop counter start limit step => forLoop counter start limit step
  | .gosub line => gosub line
  | .goto line => goto line
  | .key number text => assignKey number text
  | .assign target value => do
      let result ← eval value
      store target result
  | .list first last => do
      let session ← get
      let text ← session.program.list first last
      set (session.print text)
  | .load path andRun => requestLoad path (.load andRun)
  | .locate arguments => do
      let _ ← evalInts arguments
  | .merge path => requestLoad path .merge
  | .new => newProgram
  | .next counters => next counters
  | .onError line => onError line
  | .onGoto selector lines => do
      match ← selected selector lines with
      | some line => goto line
      | none => return ()
  | .onGosub selector lines => do
      match ← selected selector lines with
      | some line => gosub line
      | none => return ()
  | .palette arguments => palette arguments
  | .print items => printItems items
  | .read targets => read targets
  | .restore line => restore line
  | .resume target => resume target
  | .returnTo line => returnTo line
  | .run line => run line
  | .screen arguments => do
      let values ← evalInts arguments
      changeSettings fun settings =>
        { settings with screen := mergeArguments settings.screen values }
  | .stop => modify Session.breakOff
  | .traceOff => changeSettings fun settings => { settings with tracing := false }
  | .traceOn => changeSettings fun settings => { settings with tracing := true }
  | .wend => wend
  | .whileLoop condition => whileLoop condition

/-- Carries out a statement. -/
def statement : Statement → SessionAct Unit
  | .command c => command c
  | .choice condition _ _ => choose condition

end SessionAct

end LineBasic
