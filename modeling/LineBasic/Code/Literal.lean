import LineBasic.Code.Statement
import LineBasic.Fault
import LineBasic.Number.Decimal
import LineBasic.Token.Basic

/-! Numeric constants: the value that a number token stands for. -/

namespace LineBasic.Literal

/-- The value of a digit in bases up to sixteen. -/
def digitValue (c : Char) : Nat :=
  if c.isDigit then c.toNat - 48 else c.toUpper.toNat - 55

/-- A constant written by its sixteen bits in some base. -/
def bits (base : Nat) (digits : List Char) : Except Fault Expr :=
  let value := digits.foldl (fun n c => base * n + digitValue c) 0
  if digits.isEmpty || value > 0xFFFF then throw (.of .overflow)
  else return .int (UInt16.ofNat value).toInt16

/-- A whole text read as a single. -/
def single (text : List Char) : Except Fault Expr :=
  match Number.Written.ofText? text with
  | some written =>
      if written.toSingle.isFinite then return .single written.toSingle
      else throw (.of .overflow)
  | none => throw (.of .syntaxError "MALFORMED NUMBER")

/-- A whole text read as a double. -/
def double (text : List Char) : Except Fault Expr :=
  match Number.Written.ofText? text with
  | some written =>
      if written.toDouble.isFinite then return .double written.toDouble
      else throw (.of .overflow)
  | none => throw (.of .syntaxError "MALFORMED NUMBER")

/-- The text of a constant without its sigil and with `E` for either exponent mark. -/
def withoutSigil (literal : List Char) : List Char :=
  (Text.dropEndWhile (fun c => c == '!' || c == '#' || c == '%') literal).map fun c =>
    if c == 'D' || c == 'd' then 'E' else c

/-- The value of a number token. A constant with a point and no exponent is a double when it has
more than seven significant digits. -/
def ofToken (token : Token) : Except Fault Expr :=
  let literal := token.literal.toList
  let clean := withoutSigil literal
  match token.kind with
  | .int =>
      match Number.int16? clean with
      | some value => return .int value
      | none => throw (.of .overflow)
  | .fixed =>
      let significant := (clean.filter Char.isDigit).dropWhile (· == '0')
      if significant.length > 7 then double clean else single clean
  | .float => single clean
  | .double => double clean
  | .hex => bits 16 (literal.drop 2)
  | .octal =>
      bits 8 ((literal.dropWhile (· == '&')).dropWhile fun c => c == 'O' || c == 'o')
  | _ => throw (.of .syntaxError "EXPECTED NUMBER")

/-- The line number that a token's text stands for. -/
def lineNumber (literal : String) : Except Fault Nat :=
  let digits := literal.toList
  if digits.isEmpty || !digits.all Char.isDigit then
    throw (.of .syntaxError "EXPECTED LINE NUMBER")
  else if Number.digitsValue digits ≤ Line.maxNumber then return Number.digitsValue digits
  else throw (.of .syntaxError "LINE NUMBER OUT OF RANGE")

end LineBasic.Literal
