import LineBasic.Code.Listing
import LineBasic.Code.StatementReader

/-! Source lines. They are read one after the other off one list of tokens. A line that cannot be read is
left out, its fault carries its number, and the reading goes on behind the next token that ends a line,
from the place where it failed. -/

namespace LineBasic

namespace Reader

/-- The number in front of a line, if there is one. -/
def label? : Reader (Option Nat) := do
  if (← peekKind) = .lineNumber then return some (← Literal.lineNumber (← next).literal)
  else return none

/-- Moves past the end of the line, but not past the end of the source. -/
def passLineEnd : Reader Unit := ⟨fun tokens =>
  (.ok (), if kindAt tokens = .eol then tokens.tail else tokens)⟩

/-- The statements up to the end of the line. -/
def lineStatements : Reader (List Statement) := do statements ((← tokensLeft) + 1)

/-- The statements of a line and its end. A line with neither a number nor a statement is nothing. -/
def body (number : Option Nat) : Reader (Option Line) := do
  let statements ← lineStatements
  passLineEnd
  if number.isNone && statements.isEmpty then return none else return some ⟨number, statements⟩

/-- A line. -/
def line : Reader (Option Line) := do
  let number ← label?
  tryCatch (body number) fun fault => throw (fault.inLine number)

end Reader

/-- What comes behind the line. -/
def skipLine : List Token → List Token
  | [] => []
  | token :: rest =>
      match token.kind with
      | .eol => rest
      | .eof => token :: rest
      | _ => skipLine rest

/-- The lines of a source and the faults of the lines that could not be read. -/
structure Parsed where
  lines : List Line
  faults : List Fault
  deriving DecidableEq

namespace Parsed

def empty : Parsed := ⟨[], []⟩

/-- Puts what one line gave in front. -/
def cons (parsed : Parsed) : Except Fault (Option Line) → Parsed
  | .ok (some line) => { parsed with lines := line :: parsed.lines }
  | .ok none => parsed
  | .error fault => { parsed with faults := fault :: parsed.faults }

/-- Reads lines up to the end of the source. -/
def readLines : Nat → List Token → Parsed
  | 0, _ => empty
  | budget + 1, tokens =>
      if Reader.kindAt tokens = .eof then empty
      else
        match Reader.line.outcome tokens with
        | (.ok found, rest) => (readLines budget rest).cons (.ok found)
        | (.error fault, rest) => (readLines budget (skipLine rest)).cons (.error fault)

/-- Reads a source. Every line takes a token at least. -/
def ofTokens (tokens : List Token) : Parsed := readLines (tokens.length + 1) tokens

/-- The listing of the lines, each ended by a line feed. -/
def listing (parsed : Parsed) : String :=
  parsed.lines.foldr (fun line text => line.listing ++ "\n" ++ text) ""

end Parsed

end LineBasic
