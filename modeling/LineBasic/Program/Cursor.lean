import LineBasic.Program.Basic

/-! Positions of statements. A cursor names a line, or the direct line, and a path: the index of a
statement in the line, then for each IF that is entered the branch, 0 for THEN and 1 for ELSE, and
the index in that branch. -/

namespace LineBasic

structure Cursor where
  line : Option Nat
  path : List Nat
  deriving Repr, DecidableEq

/-- The first statement of a line. -/
def Cursor.start (line : Option Nat) : Cursor := ⟨line, [0]⟩

/-- The statement that a path leads to. -/
def statementAt? : List Statement → List Nat → Option Statement
  | list, [index] => list[index]?
  | list, index :: branch :: rest =>
      match list[index]? with
      | some (.choice _ thenList elseList) =>
          statementAt? (if branch = 0 then thenList else elseList) rest
      | _ => none
  | _, [] => none

/-- The next path in execution order at which a statement stands, within one line. The path is given
last index first. After the last statement of a branch comes the statement after its IF. -/
def nextPath? (holds : List Nat → Bool) : List Nat → Option (List Nat)
  | [] => none
  | [index] => if holds [index + 1] then some [index + 1] else none
  | [index, outer] => if holds [index + 1, outer] then some [index + 1, outer] else none
  | index :: branch :: outer :: rest =>
      if holds ((index + 1) :: branch :: outer :: rest) then
        some ((index + 1) :: branch :: outer :: rest)
      else nextPath? holds (outer :: rest)

namespace Program

/-- The statements of a line, or of the direct line. -/
def statementsOf? (program : Program) : Option Nat → Option (List Statement)
  | some number => program.lines.get? number
  | none => some program.direct

/-- The statement under a cursor. -/
def statement? (program : Program) (cursor : Cursor) : Option Statement := do
  statementAt? (← program.statementsOf? cursor.line) cursor.path

/-- The first statement of a stored line. -/
def start (program : Program) (number : Nat) : Except Fault Cursor :=
  if program.lines.contains number then return .start (some number)
  else throw (.of .undefinedLineNumber)

/-- The first statement of the program. -/
def firstCursor? (program : Program) : Option Cursor :=
  program.lines.first?.map fun number => .start (some number)

/-- The first statement of a branch of the IF under the cursor. An empty branch is not entered. -/
def enterBranch? (program : Program) (cursor : Cursor) (branch : Nat) : Option Cursor :=
  match program.statement? cursor with
  | some (.choice _ thenList elseList) =>
      if (if branch = 0 then thenList else elseList).isEmpty then none
      else some ⟨cursor.line, cursor.path ++ [branch, 0]⟩
  | _ => none

/-- The next statement in execution order: after a branch the statement after its IF, after a line
the following line. -/
def advance? (program : Program) (cursor : Cursor) : Option Cursor :=
  let holds (path : List Nat) : Bool :=
    (program.statement? ⟨cursor.line, path.reverse⟩).isSome
  match nextPath? holds cursor.path.reverse with
  | some path => some ⟨cursor.line, path.reverse⟩
  | none => do
      let number ← cursor.line
      return .start (some (← program.lines.after? number))

/-- More than the number of statements that can follow one another in execution order. -/
def span (program : Program) : Nat :=
  program.lines.entries.foldr (fun entry total => Statement.countAll entry.2 + total) 0 +
    Statement.countAll program.direct + 1

end Program

end LineBasic
