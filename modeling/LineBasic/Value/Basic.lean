import LineBasic.Fault
import LineBasic.Number.Decimal
import LineBasic.Text.Blank

/-! Values that a program computes with, how they convert into each other, and how they are printed.
A number converts into every numeric type that can hold it; text and numbers never convert. -/

namespace LineBasic

inductive Value where
  | text (value : String)
  | int (value : Int16)
  | single (value : Float32)
  | double (value : Float)
  deriving DecidableEq

namespace Value

/-- The greatest number of characters a text may have. -/
def maxTextLength : Nat := 255

def isText : Value → Bool
  | text _ => true
  | _ => false

/-- A number is true unless it is zero. -/
def isTrue : Value → Except Fault Bool
  | int n => return n != 0
  | single x => return x != 0
  | double x => return x != 0
  | text _ => throw (.of .typeMismatch)

/-- The sixteen-bit integer nearest to an exact number, a half going away from zero. -/
def intOf (exact : Number.Binary) : Except Fault Int16 :=
  match exact.roundAway? with
  | some n => if -32768 ≤ n ∧ n ≤ 32767 then return Int16.ofInt n else throw (.of .overflow)
  | none => throw (.of .overflow)

def toInt : Value → Except Fault Int16
  | int n => return n
  | single x => intOf (Number.ofSingle x)
  | double x => intOf (Number.ofDouble x)
  | text _ => throw (.of .typeMismatch)

/-- An integer as a single, which is exact. -/
def singleOfInt (n : Int16) : Float32 := Float32.ofInt n.toInt

/-- An integer as a double, which is exact. -/
def doubleOfInt (n : Int16) : Float := Float.ofInt n.toInt

/-- The greatest finite single. -/
def greatestSingle : Float := Float.ofBits 0x47EFFFFFE0000000

def toSingle : Value → Except Fault Float32
  | int n => return singleOfInt n
  | single x => return x
  | double x =>
      if x.abs > greatestSingle then throw (.of .overflow) else return Number.singleOfDouble x
  | text _ => throw (.of .typeMismatch)

def toDouble : Value → Except Fault Float
  | int n => return doubleOfInt n
  | single x => return Number.doubleOfSingle x
  | double x => return x
  | text _ => throw (.of .typeMismatch)

def toText : Value → Except Fault String
  | text s => return s
  | _ => throw (.of .typeMismatch)

/-- The digits of a number without the zeros at their end, never empty. -/
def significantDigits (digits : Nat) : List Char :=
  match Text.dropEndWhile (· == '0') (Nat.toDigits 10 digits) with
  | [] => ['0']
  | significant => significant

/-- An exponent with its sign and at least two digits. -/
def exponentText (exponent : Int) : String :=
  let digits := toString exponent.natAbs
  (if exponent < 0 then "-" else "+") ++ (if digits.length < 2 then "0" ++ digits else digits)

/-- The digits of a printed number around its point. Numbers outside the range that `count` digits
cover are written with an exponent, and no zero stands before a point. -/
def digitsText (count : Nat) (mark : String) (decimal : Number.Decimal) : String :=
  let significant := significantDigits decimal.digits
  let exponent := decimal.power + count - 1
  if exponent ≥ count || exponent < -3 then
    let fraction := significant.drop 1
    String.ofList (significant.take 1) ++
      (if fraction.isEmpty then "" else "." ++ String.ofList fraction) ++ mark ++
      exponentText exponent
  else if exponent < 0 then
    "." ++ String.ofList (List.replicate (-exponent - 1).toNat '0' ++ significant)
  else
    let point := exponent.toNat + 1
    if significant.length ≤ point then
      String.ofList (significant ++ List.replicate (point - significant.length) '0')
    else
      String.ofList (significant.take point) ++ "." ++ String.ofList (significant.drop point)

/-- A floating point number as printed: a minus sign or a blank, then `count` significant digits at
most, and the exponent, if any, after its mark. -/
def floatText (count : Nat) (mark : String) : Number.Binary → String
  | .finite negative mantissa power =>
      if mantissa = 0 then " 0"
      else
        (if negative then "-" else " ") ++
          digitsText count mark (Number.roundedDecimal count mantissa power)
  | .infinite negative => if negative then "-inf" else " inf"
  | .undefined => " NaN"

/-- A value as PRINT and STR$ show it. -/
def display : Value → String
  | text s => s
  | int n => if n < 0 then toString n.toInt else " " ++ toString n.toInt
  | single x => floatText 7 "E" (Number.ofSingle x)
  | double x => floatText 16 "D" (Number.ofDouble x)

/-- The exponent at the start of a text: a mark, an optional sign and at least one digit. -/
def exponentAhead : List Char → List Char
  | mark :: '+' :: rest => withDigits [mark, '+'] rest
  | mark :: '-' :: rest => withDigits [mark, '-'] rest
  | mark :: rest => withDigits [mark] rest
  | [] => []
where
  /-- The start with the digits that follow, or nothing where none follows. -/
  withDigits (start rest : List Char) : List Char :=
    match rest.takeWhile Char.isDigit with
    | [] => []
    | digits => start ++ digits

/-- Reads the number at the start of a text, as VAL and READ do. Blanks do not count, and what
follows the number is left alone. The mark `D` makes the number a double, even if no exponent follows
it; without any digit the number is the integer zero. -/
def ofNumericText (source : String) : Value :=
  let text := (source.toList.filter (· != ' ')).map Char.toUpper
  let sign := (text.take 1).filter fun c => c == '+' || c == '-'
  let (mantissa, rest) := Number.spanMantissa (text.drop sign.length)
  let marked := mantissa.any Char.isDigit && (rest.head? == some 'E' || rest.head? == some 'D')
  let exponent := if marked then (exponentAhead rest).map fun c => if c == 'D' then 'E' else c else []
  match Number.Written.ofText? (sign ++ mantissa ++ exponent) with
  | none => int 0
  | some written =>
      if marked && rest.head? == some 'D' then double written.toDouble
      else single (Number.singleOfDouble written.toDouble)

end Value

end LineBasic
