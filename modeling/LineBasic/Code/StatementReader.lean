import LineBasic.Code.Reader

/-! Reading of statements. Every statement starts with its reserved word, except an assignment, which
may start with the name it assigns to. -/

namespace LineBasic.Reader

/-- A variable, an equals sign and the value. -/
def assignment : Reader Command := do
  let assignee ← target
  expect .eq
  return .assign assignee (← expr)

/-- AUTO: where to start and by how much to go on. -/
def auto : Reader Command := do
  let start ← lineRef?
  if ← accept .comma then return .auto start (some (← lineRef)) else return .auto start none

/-- CHAIN: a path, a line to start at, and whether every variable is kept. -/
def chain : Reader Command := do
  let path ← expr
  if ← accept .comma then
    let line ← lineRef?
    if ← accept .comma then
      expect (.keyword .ALL)
      return .chain path line true
    else return .chain path line false
  else return .chain path none false

/-- One item of DATA. Where no item stands, the item is empty text. -/
def datum : Reader Datum := do
  match ← peekKind with
  | .raw => return .raw (← next).literal
  | .text => return .quoted (← next).literal
  | .illegal => refuse "UNTERMINATED STRING"
  | _ => return .raw ""

/-- The name of a function to be defined. -/
def functionName : Reader Name := do
  let first ← name
  let whole ← if first = ⟨"FN"⟩ then pure (Name.ofWord ("FN" ++ (← name).spelling)) else pure first
  if whole.isFunction then return whole else refuse "EXPECTED FN"

/-- DEF: the name, the parameters in parentheses, if any, and the body. -/
def definition : Reader Command := do
  let function ← functionName
  let parameters ←
    if ← accept .leftParen then
      let list ← listOf name
      expect .rightParen
      pure list
    else pure []
  expect .eq
  return .define function parameters (← expr)

/-- FOR: the counter, its first value, its limit and its step. -/
def forLoop : Reader Command := do
  let counter ← name
  expect .eq
  let start ← expr
  expect (.keyword .TO)
  let limit ← expr
  if ← accept (.keyword .STEP) then return .forLoop counter start limit (some (← expr))
  else return .forLoop counter start limit none

/-- LIST: a line, or a range with either end left out. -/
def list : Reader Command := do
  let first ← lineRef?
  if ← accept .minus then return .list first (← lineRef?) else return .list first first

/-- LOAD: a path, and the letter R to run what is loaded. -/
def load : Reader Command := do
  let path ← expr
  if ← accept .comma then
    if (← name) = ⟨"R"⟩ then return .load path true else refuse "EXPECTED R"
  else return .load path false

/-- ON: a trap for errors, or a jump selected by a number. -/
def trapOrJump : Reader Command := do
  if ← accept (.keyword .ERROR) then
    expect (.keyword .GOTO)
    return .onError (← lineRef)
  else
    let selector ← expr
    match (← next).kind with
    | .keyword .GOTO => return .onGoto selector (← listOf lineRef)
    | .keyword .GOSUB => return .onGosub selector (← listOf lineRef)
    | _ => refuse "EXPECTED GOTO OR GOSUB"

/-- The items of PRINT up to the end of the statement. -/
def printItems : Nat → Reader (List PrintItem)
  | 0 => exhausted
  | budget + 1 => do
      if ← atEnd then return []
      else
        let item ←
          match ← peekKind with
          | .comma => (fun _ => PrintItem.comma) <$> next
          | .semicolon => (fun _ => PrintItem.semicolon) <$> next
          | .keyword .USING => refuse "PRINT USING"
          | _ => PrintItem.expr <$> expr
        return item :: (← printItems budget)

/-- RESUME: at the statement that failed, which line 0 means as well, after it, or at a line. -/
def resume : Reader Command := do
  if ← accept (.keyword .NEXT) then return .resume .next
  else
    match ← lineRef? with
    | none | some 0 => return .resume .retry
    | some line => return .resume (.line line)

/-- RUN: the program from its start or from a line, or the program in a file. -/
def runOrLoad : Reader Command := do
  if ← atEnd then return .run none
  else if (← peekKind).isNumber then return .run (some (← lineRef))
  else
    let path ← expr
    if ← accept .comma then
      let _ ← name
      return .load path true
    else return .load path true

/-- The statement that starts with a token, which has been taken. -/
def command (token : Token) : Reader Command := do
  match token.kind with
  | .keyword .LET => assignment
  | .keyword .AUTO => auto
  | .keyword .BEEP => return .beep
  | .keyword .CHAIN => chain
  | .keyword .CLEAR => return .clear (← positions)
  | .keyword .CLS => return .clearScreen
  | .keyword .COLOR => return .color (← positions)
  | .keyword .COMMON => return .common (← listOf name)
  | .keyword .CONT => return .cont
  | .keyword .DATA => return .data (← listOf datum)
  | .keyword .DEF => definition
  | .keyword .DIM => return .dim (← listOf target)
  | .keyword .END => return .finish
  | .keyword .ERROR => return .error (← expr)
  | .keyword .FILES => if ← atEnd then return .files none else return .files (some (← expr))
  | .keyword .FOR => forLoop
  | .keyword .GOSUB => return .gosub (← lineRef)
  | .keyword .GOTO => return .goto (← lineRef)
  | .keyword .KEY =>
      let number ← expr
      expect .comma
      return .key number (← expr)
  | .keyword .LIST => list
  | .keyword .LOAD => load
  | .keyword .LOCATE => return .locate (← positions)
  | .keyword .MERGE => return .merge (← expr)
  | .keyword .NEW => return .new
  | .keyword .NEXT => if ← atEnd then return .next [] else return .next (← listOf name)
  | .keyword .ON => trapOrJump
  | .keyword .PALETTE => return .palette (← positions)
  | .keyword .PRINT => return .print (← printItems ((← tokensLeft) + 1))
  | .keyword .READ => return .read (← listOf target)
  | .keyword .REM =>
      if (← peekKind) = .raw then return .remark (← next).literal else return .remark ""
  | .keyword .RESTORE => return .restore (← lineRef?)
  | .keyword .RESUME => resume
  | .keyword .RETURN => return .returnTo (← lineRef?)
  | .keyword .RUN => runOrLoad
  | .keyword .SCREEN => return .screen (← positions)
  | .keyword .STOP => return .stop
  | .keyword .TROFF => return .traceOff
  | .keyword .TRON => return .traceOn
  | .keyword .WEND => return .wend
  | .keyword .WHILE => return .whileLoop (← expr)
  | _ =>
      if isOpenString token then refuse "UNTERMINATED STRING" else refuse "EXPECTED STATEMENT"

mutual

/-- A statement. -/
def statementWithin : Nat → Reader Statement
  | 0 => exhausted
  | budget + 1 => do
      if (← peekKind) = .ident then return .command (← assignment)
      else
        let token ← next
        if token.kind = .keyword .IF then choice budget else return .command (← command token)

/-- The condition and the branches of IF. A colon may stand before ELSE. -/
def choice : Nat → Reader Statement
  | 0 => exhausted
  | budget + 1 => do
      let condition ← expr
      let thenList ←
        match (← next).kind with
        | .keyword .THEN => branch budget
        | .keyword .GOTO => (fun line => [.command (.goto line)]) <$> lineRef
        | _ => refuse "EXPECTED THEN OR GOTO"
      if ← atColonElse then
        let _ ← next
      if ← accept (.keyword .ELSE) then return .choice condition thenList (← branch budget)
      else return .choice condition thenList []

/-- A branch of IF: a line to go to, or statements. -/
def branch : Nat → Reader (List Statement)
  | 0 => exhausted
  | budget + 1 => do
      if (← peekKind).isNumber then return [.command (.goto (← lineRef))]
      else
        match ← branchStatements budget with
        | [] => refuse "EXPECTED STATEMENT"
        | statements => return statements

/-- Statements up to ELSE or the end of the line. -/
def branchStatements : Nat → Reader (List Statement)
  | 0 => exhausted
  | budget + 1 => do
      match ← peekKind with
      | .eol | .eof | .keyword .ELSE => return []
      | .colon =>
          if (← peekSecondKind) = .keyword .ELSE then return []
          else
            let _ ← next
            branchStatements budget
      | _ =>
          let first ← statementWithin budget
          if ← atEnd then return first :: (← branchStatements budget)
          else refuse "EXPECTED END OF STATEMENT"

end

/-- A statement. -/
def statement : Reader Statement := do statementWithin (budgetFor (← tokensLeft))

/-- Statements separated by colons, up to the end of the line. -/
def statements : Nat → Reader (List Statement)
  | 0 => exhausted
  | budget + 1 => do
      match ← peekKind with
      | .eol | .eof => return []
      | .colon =>
          let _ ← next
          statements budget
      | _ =>
          let first ← statement
          if (← peekKind).isTerminator then return first :: (← statements budget)
          else refuse "EXPECTED END OF STATEMENT"

end LineBasic.Reader
