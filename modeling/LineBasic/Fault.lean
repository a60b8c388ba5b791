/-! Faults: what goes wrong while a program is read or run. A fault carries a number that programs
can compare with, the line it arose in, and sometimes a short detail. The numbers are sparse, and the
ERROR statement may raise any of them, so a number without a meaning is a fault as well. -/

namespace LineBasic

/-- The causes that the language names. -/
inductive Cause where
  | nextWithoutFor
  | syntaxError
  | returnWithoutGosub
  | outOfData
  | illegalFunctionCall
  | overflow
  | outOfMemory
  | undefinedLineNumber
  | subscriptOutOfRange
  | duplicateDefinition
  | divisionByZero
  | typeMismatch
  | stringTooLong
  | cannotContinue
  | undefinedFunction
  | noResume
  | resumeWithoutError
  | missingOperand
  | deviceFault
  | forWithoutNext
  | whileWithoutWend
  | wendWithoutWhile
  | internal
  | fileNotFound
  | permissionDenied
  | pathNotFound
  deriving Repr, DecidableEq

/-- The number of a cause. -/
def Cause.code : Cause → Nat
  | nextWithoutFor => 1
  | syntaxError => 2
  | returnWithoutGosub => 3
  | outOfData => 4
  | illegalFunctionCall => 5
  | overflow => 6
  | outOfMemory => 7
  | undefinedLineNumber => 8
  | subscriptOutOfRange => 9
  | duplicateDefinition => 10
  | divisionByZero => 11
  | typeMismatch => 13
  | stringTooLong => 15
  | cannotContinue => 17
  | undefinedFunction => 18
  | noResume => 19
  | resumeWithoutError => 20
  | missingOperand => 22
  | deviceFault => 25
  | forWithoutNext => 26
  | whileWithoutWend => 29
  | wendWithoutWhile => 30
  | internal => 51
  | fileNotFound => 53
  | permissionDenied => 70
  | pathNotFound => 76

structure Fault where
  code : Nat
  line : Option Nat := none
  detail : String := ""
  deriving Repr, DecidableEq

namespace Fault

/-- The sentence that belongs to a number. -/
def textOf : Nat → String
  | 1 => "NEXT without FOR"
  | 2 => "Syntax error"
  | 3 => "RETURN without GOSUB"
  | 4 => "Out of DATA"
  | 5 => "Illegal function call"
  | 6 => "Overflow"
  | 7 => "Out of memory"
  | 8 => "Undefined line number"
  | 9 => "Subscript out of range"
  | 10 => "Duplicate Definition"
  | 11 => "Division by zero"
  | 12 => "Illegal direct"
  | 13 => "Type mismatch"
  | 14 => "Out of string space"
  | 15 => "String too long"
  | 16 => "String formula too complex"
  | 17 => "Can't continue"
  | 18 => "Undefined user function"
  | 19 => "No RESUME"
  | 20 => "RESUME without error"
  | 22 => "Missing operand"
  | 23 => "Line buffer overflow"
  | 24 => "Device Timeout"
  | 25 => "Device Fault"
  | 26 => "FOR without NEXT"
  | 27 => "Out of Paper"
  | 29 => "WHILE without WEND"
  | 30 => "WEND without WHILE"
  | 50 => "FIELD overflow"
  | 51 => "Internal error"
  | 52 => "Bad file number"
  | 53 => "File not found"
  | 70 => "Permission Denied"
  | 76 => "Path not found"
  | _ => "Unprintable error"

/-- A fault of a named cause. -/
def of (cause : Cause) (detail : String := "") : Fault := ⟨cause.code, none, detail⟩

/-- The fault as raised in a line, or in a direct statement when there is none. -/
def inLine (fault : Fault) (line : Option Nat) : Fault := { fault with line }

def text (fault : Fault) : String := textOf fault.code

/-- Whether the fault arose outside the numbered lines. -/
def isDirect (fault : Fault) : Bool := fault.line.isNone

/-- The message that is shown: the sentence, then the line, then the detail. -/
def display (fault : Fault) : String :=
  fault.text ++
    (match fault.line with
      | some line => " in " ++ toString line
      | none => "") ++
    if fault.detail.isEmpty then "" else "; " ++ fault.detail

/-- The message with the number, for diagnostics. -/
def debugText (fault : Fault) : String :=
  "Error \x7b " ++ fault.display ++ " (" ++ toString fault.code ++ ") \x7d"

end Fault

end LineBasic
