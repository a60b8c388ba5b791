import LineBasic.Code.Statement
import LineBasic.Number.Decimal

/-! The listing of code: the source text that LIST shows. Parentheses are written only where the
levels of the operators ask for them. -/

namespace LineBasic

/-- Joins texts with a separator between each two. -/
def joinWith (separator : String) : List String → String
  | [] => ""
  | [text] => text
  | text :: rest => text ++ separator ++ joinWith separator rest

/-- A single as a constant. It needs its sigil unless a point and at most seven characters from its
first digit on make it a single already. -/
def singleLiteral (value : Float32) : String :=
  let text := Number.plainSingle value
  let significant := text.toList.dropWhile fun c => c == '0' || c == '.'
  if text.toList.contains '.' && significant.length ≤ 7 then text else text ++ "!"

/-- An integer as a constant. A negative one has no sign of its own and is written by its sixteen
bits. -/
def intLiteral (value : Int16) : String :=
  if value < 0 then
    "&H" ++ String.ofList ((Nat.toDigits 16 (value.toInt + 65536).toNat).map Char.toUpper)
  else toString value.toInt.toNat

namespace Expr

/-- Encloses an operand's text where it must not bind to what stands outside. -/
def enclose (needed : Bool) (text : String) : String :=
  if needed then "(" ++ text ++ ")" else text

mutual

def listing : Expr → String
  | int value => intLiteral value
  | single value => singleLiteral value
  | double value => Number.plainDouble value ++ "#"
  | text value => "\"" ++ value ++ "\""
  | truth value => if value then "TRUE" else "FALSE"
  | scalar name => name.spelling
  | element name subscripts => name.spelling ++ "(" ++ listingAll subscripts ++ ")"
  | call name arguments => name.spelling ++ "(" ++ listingAll arguments ++ ")"
  | unary op operand =>
      op.spelling ++ enclose (operand.level < Level.ofUnary) operand.listing
  | binary op left right =>
      enclose (left.level < op.level) left.listing ++ " " ++ op.spelling ++ " " ++
        enclose (right.level ≤ op.level) right.listing
  | faultLine => "ERL"
  | faultCode => "ERR"
  | cursorRow => "CSRLIN"

/-- Expressions separated by commas. -/
def listingAll : List Expr → String
  | [] => ""
  | [expr] => expr.listing
  | expr :: rest => expr.listing ++ ", " ++ listingAll rest

end

end Expr

def Variable.listing (target : Variable) : String := target.toExpr.listing

namespace Command

/-- Positional arguments, an empty position leaving no text. -/
def positions (arguments : List (Option Expr)) : String :=
  joinWith ", " (arguments.map fun
    | some expr => expr.listing
    | none => "")

/-- A word with its arguments, if there are any. -/
def withArguments (word arguments : String) : String :=
  if arguments.isEmpty then word else word ++ " " ++ arguments

def names (list : List Name) : String := joinWith ", " (list.map Name.spelling)

def numbers (list : List Nat) : String := joinWith ", " (list.map toString)

def targetList (list : List Variable) : String := joinWith ", " (list.map Variable.listing)

/-- A word with a line number, if there is one. -/
def withLine (word : String) : Option Nat → String
  | some line => word ++ " " ++ toString line
  | none => word

def datum : Datum → String
  | .quoted text => "\"" ++ text ++ "\""
  | .raw text => text

/-- The items of PRINT. Two adjacent expressions are kept apart by a semicolon. -/
def printItems (afterExpr : Bool) : List PrintItem → String
  | [] => ""
  | .expr value :: rest =>
      (if afterExpr then "; " else " ") ++ value.listing ++ printItems true rest
  | .comma :: rest => "," ++ printItems false rest
  | .semicolon :: rest => ";" ++ printItems false rest

def listing : Command → String
  | auto start step =>
      withArguments "AUTO"
        ((match start with
          | some line => toString line
          | none => "") ++
          match step with
          | some line => ", " ++ toString line
          | none => "")
  | beep => "BEEP"
  | chain path line all =>
      "CHAIN " ++ path.listing ++
        (match line, all with
          | some line, _ => ", " ++ toString line
          | none, true => ","
          | none, false => "") ++
        if all then ", ALL" else ""
  | clear arguments => withArguments "CLEAR" (positions arguments)
  | clearScreen => "CLS"
  | color arguments => withArguments "COLOR" (positions arguments)
  | common shared => "COMMON " ++ names shared
  | cont => "CONT"
  | data items => "DATA " ++ joinWith "," (items.map datum)
  | define name parameters body =>
      "DEF " ++ name.spelling ++
        (if parameters.isEmpty then "" else "(" ++ names parameters ++ ")") ++ " = " ++
        body.listing
  | dim targets => "DIM " ++ targetList targets
  | finish => "END"
  | error code => "ERROR " ++ code.listing
  | files pattern =>
      match pattern with
      | some expr => "FILES " ++ expr.listing
      | none => "FILES"
  | forLoop counter start limit step =>
      "FOR " ++ counter.spelling ++ " = " ++ start.listing ++ " TO " ++ limit.listing ++
        match step with
        | some expr => " STEP " ++ expr.listing
        | none => ""
  | gosub line => "GOSUB " ++ toString line
  | goto line => "GOTO " ++ toString line
  | key number text => "KEY " ++ number.listing ++ ", " ++ text.listing
  | assign target value => target.listing ++ " = " ++ value.listing
  | list first last =>
      match first, last with
      | none, none => "LIST"
      | some a, some b =>
          if a = b then "LIST " ++ toString a else "LIST " ++ toString a ++ "-" ++ toString b
      | some a, none => "LIST " ++ toString a ++ "-"
      | none, some b => "LIST -" ++ toString b
  | load path andRun => (if andRun then "RUN " else "LOAD ") ++ path.listing
  | locate arguments => withArguments "LOCATE" (positions arguments)
  | merge path => "MERGE " ++ path.listing
  | new => "NEW"
  | next counters => withArguments "NEXT" (names counters)
  | onError line => "ON ERROR GOTO " ++ toString line
  | onGoto selector lines => "ON " ++ selector.listing ++ " GOTO " ++ numbers lines
  | onGosub selector lines => "ON " ++ selector.listing ++ " GOSUB " ++ numbers lines
  | palette arguments => withArguments "PALETTE" (positions arguments)
  | print items => "PRINT" ++ printItems false items
  | read targets => "READ " ++ targetList targets
  | remark text => "REM" ++ text
  | restore line => withLine "RESTORE" line
  | resume .retry => "RESUME"
  | resume .next => "RESUME NEXT"
  | resume (.line number) => "RESUME " ++ toString number
  | returnTo line => withLine "RETURN" line
  | run line => withLine "RUN" line
  | screen arguments => withArguments "SCREEN" (positions arguments)
  | stop => "STOP"
  | traceOff => "TROFF"
  | traceOn => "TRON"
  | wend => "WEND"
  | whileLoop condition => "WHILE " ++ condition.listing

end Command

namespace Statement

/-- The line of a branch that is a lone GOTO. -/
def loneGoto? : List Statement → Option Nat
  | [command (.goto line)] => some line
  | _ => none

mutual

/-- A branch that is a lone GOTO is written as its line number. -/
def listing : Statement → String
  | command c => c.listing
  | choice condition thenList elseList =>
      "IF " ++ condition.listing ++ " THEN " ++
        (match loneGoto? thenList with
          | some line => toString line
          | none => listingAll thenList) ++
        if elseList.isEmpty then ""
        else
          " ELSE " ++
            match loneGoto? elseList with
            | some line => toString line
            | none => listingAll elseList

/-- Statements separated by colons. -/
def listingAll : List Statement → String
  | [] => ""
  | [statement] => statement.listing
  | statement :: rest => statement.listing ++ " : " ++ listingAll rest

end

end Statement

/-- The listing of a line: its number, then its statements. -/
def Line.listing (line : Line) : String :=
  let text := Statement.listingAll line.statements
  match line.number with
  | some number => if text.isEmpty then toString number else toString number ++ " " ++ text
  | none => text

end LineBasic
