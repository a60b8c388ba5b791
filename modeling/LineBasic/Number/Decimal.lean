import LineBasic.Number.Binary

/-! Decimal digits of exact binary numbers, and decimal text read into a binary format. Two ways
to choose digits are given: the fewest digits that read back as the same number, and a fixed
count of correctly rounded digits. -/

namespace LineBasic.Number

/-- How many decimal digits a natural is written with. -/
def decimalLength (n : Nat) : Nat := (Nat.toDigits 10 n).length

/-- `digits * 10 ^ power`, a positive decimal number. -/
structure Decimal where
  digits : Nat
  power : Int
  deriving Repr, DecidableEq

namespace Decimal

/-- The same number with no zero at the end of its digits. -/
def strip (digits : Nat) (power : Int) : Decimal :=
  if h : digits ≠ 0 ∧ digits % 10 = 0 then strip (digits / 10) (power + 1)
  else ⟨digits, power⟩
termination_by digits
decreasing_by omega

/-- The exponent of the first digit in scientific notation. -/
def exponent (d : Decimal) : Int := d.power + decimalLength d.digits - 1

/-- The digits with a point and without an exponent: `100`, `0.25`. -/
def positional (d : Decimal) : String :=
  let digits := Nat.toDigits 10 d.digits
  let whole := d.power + digits.length
  if whole ≤ 0 then
    "0." ++ String.ofList (List.replicate (-whole).toNat '0' ++ digits)
  else if 0 ≤ d.power then
    String.ofList (digits ++ List.replicate d.power.toNat '0')
  else
    String.ofList (digits.take whole.toNat) ++ "." ++ String.ofList (digits.drop whole.toNat)

/-- The pattern of the format that is nearest to the number. Numbers far outside every format are
settled by their first digit's exponent, so a long exponent costs nothing. -/
def toBits (f : Format) (d : Decimal) : Nat :=
  if d.digits = 0 then 0
  else if d.exponent > 400 then f.infinityBits
  else if d.exponent < -400 then 0
  else f.roundQuotient (scaleUp 10 d.digits d.power) (scaleUp 10 1 (-d.power))

end Decimal

/-- The reals that round to `mantissa * 2 ^ power`, in quarters of that power of two. The gap below
a power of two is half as wide, and an end belongs to the interval when the mantissa is even. -/
structure Interval where
  low : Nat
  value : Nat
  high : Nat
  closed : Bool
  deriving Repr, DecidableEq

/-- The interval of a positive finite number of the format. -/
def Format.interval (f : Format) (mantissa : Nat) (power : Int) : Interval :=
  let narrow := mantissa = f.leadingBit ∧ f.leastPower < power
  { low := if narrow then 4 * mantissa - 1 else 4 * mantissa - 2
    value := 4 * mantissa
    high := 4 * mantissa + 2
    closed := mantissa % 2 == 0 }

/-- The decimal with `count` digits inside the interval that is nearest to its value, if there is
one. Only the two neighbours of the value on that grid can be; of two equally near ones the upper is
taken. -/
def Interval.onGrid? (i : Interval) (power : Int) (leading : Int) (count : Nat) :
    Option Decimal :=
  let grid := leading - count + 1
  let unit := scaleUp 10 (scaleUp 2 1 (power - 2)) (-grid)
  let den := scaleUp 10 (scaleUp 2 1 (2 - power)) grid
  let below := i.value * unit / den
  let lowHit := i.low * unit < below * den || (i.closed && i.low * unit == below * den)
  let highHit :=
    (below + 1) * den < i.high * unit || (i.closed && (below + 1) * den == i.high * unit)
  let lowNearer := i.value * unit - below * den < (below + 1) * den - i.value * unit
  if lowHit && (lowNearer || !highHit) then some (Decimal.strip below grid)
  else if highHit then some (Decimal.strip (below + 1) grid)
  else none

/-- The exponent of the first decimal digit of `mantissa * 2 ^ power`. -/
def leadingExponent (mantissa : Nat) (power : Int) : Int :=
  floorLog 10 decimalLength (scaleUp 2 mantissa power) (scaleUp 2 1 (-power))

/-- The decimal with the fewest digits that reads back as the number, and the nearest of those.
Seventeen digits always suffice for the formats in use. -/
def Format.shortest (f : Format) (mantissa : Nat) (power : Int) : Decimal :=
  let i := f.interval mantissa power
  let leading := leadingExponent mantissa power
  ((List.range 17).findSome? fun n => i.onGrid? power leading (n + 1)).getD ⟨mantissa, 0⟩

/-- The decimal with `count` digits that is nearest to a positive number, a half going to the even
digit. Rounding up to the next power of ten keeps the count. -/
def roundedDecimal (count mantissa : Nat) (power : Int) : Decimal :=
  let grid := leadingExponent mantissa power - count + 1
  let digits := roundDiv (scaleUp 10 (scaleUp 2 mantissa power) (-grid))
    (scaleUp 10 (scaleUp 2 1 (-power)) grid)
  if digits = Nat.pow 10 count then ⟨Nat.pow 10 (count - 1), grid + 1⟩ else ⟨digits, grid⟩

/-- The plain text of a number of the format: the shortest digits that read back, with no
exponent. -/
def Format.plainText (f : Format) : Binary → String
  | .finite negative mantissa power =>
      let magnitude := if mantissa = 0 then "0" else (f.shortest mantissa power).positional
      if negative then "-" ++ magnitude else magnitude
  | .infinite negative => if negative then "-inf" else "inf"
  | .undefined => "NaN"

/-- The plain text of a single. -/
def plainSingle (x : Float32) : String := Format.single.plainText (ofSingle x)

/-- The plain text of a double. -/
def plainDouble (x : Float) : String := Format.double.plainText (ofDouble x)

/-- The value of a run of decimal digits. -/
def digitsValue (digits : List Char) : Nat :=
  digits.foldl (fun n c => 10 * n + (c.toNat - '0'.toNat)) 0

/-- Splits off the longest run of digits around at most one point. -/
def spanMantissa (text : List Char) : List Char × List Char :=
  let whole := text.takeWhile Char.isDigit
  match text.dropWhile Char.isDigit with
  | '.' :: rest => (whole ++ '.' :: rest.takeWhile Char.isDigit, rest.dropWhile Char.isDigit)
  | rest => (whole, rest)

/-- A decimal number as written: sign, then digits around at most one point, then a power of
ten. -/
structure Written where
  negative : Bool
  decimal : Decimal
  deriving Repr, DecidableEq

/-- Splits off a sign. -/
def splitSign : List Char → Bool × List Char
  | '-' :: rest => (true, rest)
  | '+' :: rest => (false, rest)
  | text => (false, text)

/-- A whole text read as an optional sign and decimal digits, within sixteen bits. -/
def int16? (text : List Char) : Option Int16 :=
  let (negative, digits) := splitSign text
  if digits.isEmpty || !digits.all Char.isDigit then none
  else
    let magnitude : Int := digitsValue digits
    let value := if negative then -magnitude else magnitude
    if -32768 ≤ value && value ≤ 32767 then some (Int16.ofInt value) else none

/-- The exponent part of a number: nothing, or `E`, an optional sign and digits. -/
def exponentPart? : List Char → Option Int
  | [] => some 0
  | mark :: rest =>
      let (negative, digits) := splitSign rest
      if mark.toUpper = 'E' && !digits.isEmpty && digits.all Char.isDigit then
        let n : Int := digitsValue digits
        some (if negative then -n else n)
      else none

/-- Reads a whole text as a number: an optional sign, digits with at most one point and at least
one digit, and an optional exponent marked by `E`. -/
def Written.ofText? (text : List Char) : Option Written :=
  let (negative, unsigned) := splitSign text
  let whole := unsigned.takeWhile Char.isDigit
  let afterWhole := unsigned.dropWhile Char.isDigit
  let (fraction, rest) := match afterWhole with
    | '.' :: more => (more.takeWhile Char.isDigit, more.dropWhile Char.isDigit)
    | other => ([], other)
  if whole.isEmpty && fraction.isEmpty then none
  else
    (exponentPart? rest).map fun exponent =>
      ⟨negative, ⟨digitsValue (whole ++ fraction), exponent - fraction.length⟩⟩

/-- The single nearest to a written number, by one rounding. -/
def Written.toSingle (w : Written) : Float32 :=
  Float32.ofBits (UInt32.ofNat (Format.single.withSign w.negative (w.decimal.toBits .single)))

/-- The double nearest to a written number, by one rounding. -/
def Written.toDouble (w : Written) : Float :=
  Float.ofBits (UInt64.ofNat (Format.double.withSign w.negative (w.decimal.toBits .double)))

end LineBasic.Number
