import LineBasic.Session.Command

/-! Runs. A session takes in lines and is then carried on statement by statement; after each call it
reports one event. A fault is handed to the program's error handler, or ends the run. -/

namespace LineBasic

namespace SessionAct

/-- What happens after the last statement. An error handler has to end with RESUME. -/
def endOfProgram : SessionAct Unit := do
  let session ← get
  if session.state = .trapped then throw (.of .noResume) else set (session.halt .idle)

/-- The line number in brackets that tracing prints when a line is entered. -/
def traceText (session : Session) (cursor : Cursor) : Option String :=
  match cursor.line with
  | some line =>
      if session.settings.tracing && (session.traced != some line || cursor.path == [0]) then
        some ("[" ++ toString line ++ "]")
      else none
  | none => none

/-- The session once a statement is about to be carried out. -/
def beginStatement (session : Session) (cursor : Cursor) : Session :=
  let shown :=
    match traceText session cursor with
    | some text => session.print text
    | none => session
  { shown with
    traced := cursor.line
    cursor := session.program.advance? cursor
    current := cursor }

/-- Carries out the next statement. -/
def step : SessionAct Unit := do
  let session ← get
  set { session with cursor := none }
  match session.cursor with
  | none => endOfProgram
  | some cursor =>
      match session.program.statement? cursor with
      | none => endOfProgram
      | some next =>
          set (beginStatement { session with cursor := none } cursor)
          statement next

end SessionAct

namespace Session

/-- A fault as it arose in the statement carried out last. -/
def located (session : Session) (fault : Fault) : Fault :=
  if fault.isDirect then fault.inLine session.current.line else fault

/-- The first statement of the error handler, where a fault may be handed to it: in a run that is not
handling one already. -/
def handler? (session : Session) : Option Cursor :=
  match session.settings.onError, session.state with
  | some line, .running => (session.program.start line).toOption
  | _, _ => none

/-- Hands a fault to the error handler, or stops with it. -/
def raise (session : Session) (fault : Fault) : Session :=
  let error := session.located fault
  let settings :=
    { session.settings with faultCode := error.code, faultLine := error.line }
  match session.handler? with
  | some handler =>
      { session with
        settings := { settings with resume := some session.current }
        cursor := some handler
        state := .trapped }
  | none =>
      let halted := { session with settings := { settings with restart := none } }.halt .stopped
      (if halted.column > 0 then halted.print "\n" else halted).report (.faults [error])

/-- Carries out the next statement and handles its fault. -/
def stepOrRaise (session : Session) : Session :=
  match SessionAct.step.outcome session with
  | (.ok _, after) => after
  | (.error fault, after) => after.raise fault

/-- Breaks off what is running, forgets what waits and leaves automatic numbering. -/
def interrupt (session : Session) : Session :=
  let quiet : Session :=
    { session with
      settings := { session.settings with auto := none }
      loading := none
      waiting := [] }
  if quiet.isRunning then quiet.breakOff else quiet

/-- Carries a session on by at most so many statements, and gives the next event. -/
def execute : Nat → Session → Event × Session
  | 0, session =>
      match session.events with
      | event :: rest => (event, { session with events := rest })
      | [] =>
          if session.isRunning || !session.waiting.isEmpty then (.running, session)
          else (.stopped, session)
  | cycles + 1, session =>
      match session.events, session.loading with
      | event :: rest, _ => (event, { session with events := rest })
      | [], some request => (.load request, session)
      | [], none =>
          if !session.isRunning then
            match session.waiting with
            | line :: rest => execute cycles ({ session with waiting := rest }.startDirect line)
            | [] => (.stopped, session)
          else if session.keys.breakSeen then
            execute cycles { session with keys := session.keys.clearBreak }.interrupt
          else execute cycles session.stepOrRaise

/-- Takes in a parsed line: a numbered one into the program, a direct one to be carried out. -/
def takeLine (session : Session) (line : Line) : Session :=
  if line.isDirect then
    if line.isEmpty then session
    else if session.isBusy then { session with waiting := session.waiting ++ [line] }
    else session.startDirect line
  else
    { session with
      program := session.program.insert line
      settings := { session.settings with restart := none }
      data := none
      dataPosition := 0 }

/-- The text of a line as entered, with the number from AUTO in front where it has none of its own.
There is no text when AUTO meets a blank line. -/
def numberedText (session : Session) (entered : String) : Option String × Session :=
  let text := Text.dropEndWhile (fun c => c == '\r' || c == '\n') entered.toList
  let hasNumber := ((text.dropWhile Text.isBlank).head?).any Char.isDigit
  if hasNumber then (some (String.ofList text), session)
  else
    match session.settings.nextAuto with
    | (none, _) => (some (String.ofList text), session)
    | (some number, settings) =>
        let after := { session with settings }
        if text.all Text.isBlank then (none, after)
        else (some (toString number ++ " " ++ String.ofList text), after)

/-- Takes in a line of source, and tells whether it could be read. -/
def enter (session : Session) (entered : String) : Bool × Session :=
  match session.numberedText entered with
  | (none, after) => (true, after)
  | (some text, after) =>
      let parsed := Parsed.ofTokens (Token.lex text)
      if parsed.faults.isEmpty then (true, parsed.lines.foldl takeLine after)
      else (false, after.report (.faults parsed.faults))

/-- Takes the place of the program with a loaded one and clears everything else. -/
def loadProgram (session : Session) (program : Program) (andRun : Bool) : Session :=
  let cleared := { session with program }.clear
  if andRun then { cleared with cursor := program.firstCursor?, state := .running }
  else cleared.halt .idle

/-- Merges a program into the one that is there. A guarded one cannot be merged. -/
def mergeProgram (session : Session) (program : Program) : Session :=
  if program.guarded then session.raise (.of .illegalFunctionCall)
  else
    { session with
      program := session.program.merge program
      settings := { session.settings with restart := none }
      data := none }.halt .idle

/-- Goes on in another program. Without ALL only the variables that the old one names in COMMON
keep their values. -/
def chainProgram (session : Session) (program : Program) (line : Option Nat) (all : Bool) :
    Session :=
  let memory := session.work.memory
  let kept := if all then memory else memory.retain session.program.common
  let chained : Session :=
    { session with
      program
      work := { session.work with memory := kept }
      functions := ∅
      stack := session.stack.clear
      data := none
      dataPosition := 0
      settings := { session.settings.clearTrap with restart := none }
      state := .running }
  match line with
  | none => { chained with cursor := program.firstCursor? }
  | some number =>
      match program.start number with
      | .ok cursor => { chained with cursor := some cursor }
      | .error fault => chained.raise fault

/-- Takes in the file that was asked for, or the fault that came instead. -/
def completeLoad (session : Session) (answer : Except Fault (List UInt8)) : Session :=
  match session.loading with
  | none => session
  | some request =>
      let waited := { session with loading := none }
      match answer with
      | .error fault => waited.raise fault
      | .ok bytes =>
          let (program, faults) := Program.ofBytes bytes
          let told := if faults.isEmpty then waited else waited.report (.faults faults)
          match request.kind with
          | .load andRun => told.loadProgram program andRun
          | .merge => told.mergeProgram program
          | .chain line all => told.chainProgram program line all

/-- Takes in a key stroke. -/
def sendKey (session : Session) (stroke : List UInt8) : Session :=
  { session with keys := session.keys.send stroke }

/-- Takes in a break from outside the keyboard. -/
def sendBreak (session : Session) : Session :=
  { session with keys := session.keys.sendBreak }

/-- Carries a session on until it stops, uses up its cycles, or has reported `limit` events. Files are
answered by the host's function. -/
def reports (files : String → Except Fault (List UInt8)) (cycles : Nat) :
    Nat → Session → List Event × Session
  | 0, session => ([], session)
  | limit + 1, session =>
      match execute cycles session with
      | (.stopped, after) => ([.stopped], after)
      | (.running, after) => ([.running], after)
      | (event, after) =>
          let answered :=
            match event with
            | .load request => after.completeLoad (files request.path)
            | _ => after
          let (events, final) := reports files cycles limit answered
          (event :: events, final)

end Session

end LineBasic
