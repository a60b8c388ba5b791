import LineBasic.Session.Basic

/-! Jumps, subroutines and loops. A frame on the stack marks each open loop and subroutine; a
subroutine's frame shields the loops of its caller. -/

namespace LineBasic

namespace Program

/-- The NEXT that closes a FOR, searched from a cursor on: the first that closes more loops than were
opened since. A NEXT with several counters closes a loop for each. -/
def closingNext? (program : Program) : Nat → Nat → Option Cursor → Option Cursor
  | 0, _, _ => none
  | _, _, none => none
  | span + 1, opened, some cursor =>
      match program.statement? cursor with
      | some (.command (.forLoop _ _ _ _)) =>
          program.closingNext? span (opened + 1) (program.advance? cursor)
      | some (.command (.next counters)) =>
          let closed := max counters.length 1
          if closed > opened then some cursor
          else program.closingNext? span (opened - closed) (program.advance? cursor)
      | _ => program.closingNext? span opened (program.advance? cursor)

/-- The WEND that closes a WHILE, searched from a cursor on. -/
def closingWend? (program : Program) : Nat → Nat → Option Cursor → Option Cursor
  | 0, _, _ => none
  | _, _, none => none
  | span + 1, opened, some cursor =>
      match program.statement? cursor with
      | some (.command (.whileLoop _)) =>
          program.closingWend? span (opened + 1) (program.advance? cursor)
      | some (.command .wend) =>
          if opened = 0 then some cursor
          else program.closingWend? span (opened - 1) (program.advance? cursor)
      | _ => program.closingWend? span opened (program.advance? cursor)

end Program

namespace SessionAct

/-- Replaces the stack. -/
def setStack (stack : Stack Frame) : SessionAct Unit :=
  modify fun session => { session with stack }

/-- Opens a loop or subroutine. -/
def pushFrame (frame : Frame) : SessionAct Unit := do
  let session ← get
  setStack (← session.stack.push frame)

/-- Removes the topmost frame. -/
def popFrame : SessionAct Frame := do
  let session ← get
  let (frame, stack) ← session.stack.pop
  setStack stack
  return frame

def goto (line : Nat) : SessionAct Unit := do
  let start ← lineStart line
  goOnAt (some start)

/-- Goes to a line and remembers where to go on after it. -/
def gosub (line : Nat) : SessionAct Unit := do
  let start ← lineStart line
  let back := (← get).cursor
  goOnAt none
  pushFrame (.gosub back)
  goOnAt (some start)

/-- Closes the innermost subroutine with all loops inside it, and goes on after its call or at a
line. -/
def returnTo (line : Option Nat) : SessionAct Unit := do
  let stack := (← get).stack
  match stack.lastIndex? Frame.isGosub with
  | none => throw (.of .returnWithoutGosub)
  | some index =>
      setStack (stack.truncate (index + 1))
      match ← popFrame with
      | .gosub back =>
          match line with
          | some number => goto number
          | none => goOnAt back
      | _ => throw (.of .internal)

/-- The line that a number selects, counted from one. -/
def selected (selector : Expr) (lines : List Nat) : SessionAct (Option Nat) := do
  let n ← evalInt selector
  if 0 ≤ n ∧ n ≤ 255 then
    return if n = 0 then none else lines[n.toInt.toNat - 1]?
  else throw (.of .illegalFunctionCall)

/-- Whether a counter has gone past its limit, in the direction of its step. -/
def isPast (counter limit step : Value) : Except Fault Bool := do
  let value ← counter.toDouble
  let bound ← limit.toDouble
  let change ← step.toDouble
  return if change ≥ 0 then value > bound else value < bound

/-- Whether the loop over a counter is over. -/
def isOver (counter : Name) (limit step : Value) : SessionAct Bool := do
  let session ← get
  isPast (session.work.memory.fetch counter) limit step

/-- Goes on after the NEXT of a loop that is not entered. -/
def skipLoop : SessionAct Unit := do
  let session ← get
  match session.program.closingNext? session.program.span 0 session.cursor with
  | some cursor => goOnAt (session.program.advance? cursor)
  | none => throw (.of .forWithoutNext)

/-- The stack as FOR leaves it before it opens its loop: an open loop over the same counter is closed
with all that is inside it, unless a subroutine was called in between. -/
def closeSameLoop (stack : Stack Frame) (counter : Name) : Stack Frame :=
  let floor := match stack.lastIndex? Frame.isGosub with
    | some index => index + 1
    | none => 0
  match stack.lastIndex? (Frame.countsOver counter) with
  | some index => if floor ≤ index then stack.truncate index else stack
  | none => stack

def forLoop (counter : Name) (start limit : Expr) (step : Option Expr) : SessionAct Unit := do
  if counter.type = .text then throw (.of .typeMismatch)
  else
    let first ← eval start
    storeScalar counter first
    let last ← eval limit
    let change ←
      match step with
      | some expr => eval expr
      | none => pure (.int 1)
    if last.isText || change.isText then throw (.of .typeMismatch)
    else
      let stack := (← get).stack
      setStack (closeSameLoop stack counter)
      if ← isOver counter last change then skipLoop
      else
        let body := (← get).cursor
        pushFrame (.forLoop counter last change body)

/-- Steps the loop over a counter, or the innermost loop. Loops inside it are closed. Tells whether
the loop goes on. -/
def nextOne (counter : Option Name) : SessionAct Bool := do
  let stack := (← get).stack
  let trimmed := stack.popWhile fun frame =>
    match counter with
    | some name => frame.isFor && !frame.countsOver name
    | none => false
  setStack trimmed
  match trimmed.top? with
  | some (.forLoop name limit step body) =>
      let sum ← Value.add ((← get).work.memory.fetch name) step
      storeScalar name sum
      if ← isOver name limit step then
        let _ ← popFrame
        return false
      else
        goOnAt body
        return true
  | _ => throw (.of .nextWithoutFor)

/-- Steps loops one after another, up to the first that goes on. -/
def nextEach : List Name → SessionAct Unit
  | [] => return ()
  | counter :: rest => do
      if ← nextOne (some counter) then return () else nextEach rest

def next (counters : List Name) : SessionAct Unit := do
  if counters.isEmpty then
    let _ ← nextOne none
  else nextEach counters

def whileLoop (condition : Expr) : SessionAct Unit := do
  let value ← eval condition
  if ← value.isTrue then
    let session ← get
    pushFrame (.whileLoop session.current)
  else
    let session ← get
    match session.program.closingWend? session.program.span 0 session.cursor with
    | some cursor => goOnAt (session.program.advance? cursor)
    | none => throw (.of .whileWithoutWend)

def wend : SessionAct Unit := do
  match (← get).stack.top? with
  | some (.whileLoop start) =>
      let _ ← popFrame
      goOnAt (some start)
  | _ => throw (.of .wendWithoutWhile)

end SessionAct

end LineBasic
