/-! Binary floating point formats as exact numbers. A bit pattern of a format denotes a signed
integer times a power of two, an infinity or no number; a quotient of naturals is written into a
format by one rounding to nearest, a half going to the even neighbour. Everything is arithmetic on
naturals, so the rounding of conversions and of decimal text can be reasoned about. -/

namespace LineBasic.Number

/-- A power of two. -/
def twoTo (exponent : Nat) : Nat := Nat.pow 2 exponent

/-- Widths of the two stored fields of a binary floating point format. -/
structure Format where
  fractionBits : Nat
  exponentBits : Nat
  deriving Repr, DecidableEq

namespace Format

def single : Format := ⟨23, 8⟩

def double : Format := ⟨52, 11⟩

/-- The largest stored exponent, which marks infinities and patterns that are no number. -/
def topExponent (f : Format) : Nat := twoTo f.exponentBits - 1

/-- The bit above the stored fraction, which every normal mantissa has. -/
def leadingBit (f : Format) : Nat := twoTo f.fractionBits

/-- The power of two that a subnormal mantissa is multiplied by; no finite number has a lower one. -/
def leastPower (f : Format) : Int :=
  2 - (twoTo (f.exponentBits - 1) : Int) - f.fractionBits

/-- The pattern of positive infinity. -/
def infinityBits (f : Format) : Nat := f.topExponent * f.leadingBit

/-- The sign bit alone. -/
def signBit (f : Format) : Nat := twoTo (f.fractionBits + f.exponentBits)

/-- One pattern that denotes no number. -/
def undefinedBits (f : Format) : Nat := f.infinityBits + twoTo (f.fractionBits - 1)

end Format

/-- The meaning of a bit pattern. `finite s m p` is `m * 2 ^ p`, negated when `s` holds. -/
inductive Binary where
  | finite (negative : Bool) (mantissa : Nat) (power : Int)
  | infinite (negative : Bool)
  | undefined
  deriving Repr, DecidableEq

/-- The number that a bit pattern denotes. -/
def Format.decode (f : Format) (bits : Nat) : Binary :=
  let negative := bits / f.signBit % 2 == 1
  let stored := bits / f.leadingBit % twoTo f.exponentBits
  let fraction := bits % f.leadingBit
  if stored = f.topExponent then
    if fraction = 0 then .infinite negative else .undefined
  else if stored = 0 then
    .finite negative fraction f.leastPower
  else
    .finite negative (f.leadingBit + fraction) (f.leastPower + (stored - 1 : Nat))

/-- The integer nearest to `num / den`, a half going to the even neighbour. -/
def roundDiv (num den : Nat) : Nat :=
  let low := num / den
  let twice := 2 * (num % den)
  if twice < den then low
  else if twice > den then low + 1
  else low + low % 2

/-- `n * b ^ e` for a natural exponent part: the numerator's share of a signed power. -/
def scaleUp (base n : Nat) (power : Int) : Nat := n * Nat.pow base power.toNat

/-- The greatest `k` with `base ^ k ≤ num / den`, given the number of digits that naturals have
in that base. Both arguments are positive. -/
def floorLog (base : Nat) (digitCount : Nat → Nat) (num den : Nat) : Int :=
  let guess : Int := (digitCount num : Int) - digitCount den
  if scaleUp base num (-guess) < scaleUp base den guess then guess - 1 else guess

/-- The pattern of the positive quotient `num / den`, rounded once. A value past the largest
finite number becomes infinity. The sum below carries from the fraction into the exponent. -/
def Format.roundQuotient (f : Format) (num den : Nat) : Nat :=
  if num = 0 then 0
  else
    let power := max f.leastPower (floorLog 2 (fun n => n.log2 + 1) num den - f.fractionBits)
    let mantissa := roundDiv (scaleUp 2 num (-power)) (scaleUp 2 den power)
    min f.infinityBits ((power - f.leastPower).toNat * f.leadingBit + mantissa)

/-- Adds a sign to the pattern of a magnitude. -/
def Format.withSign (f : Format) (negative : Bool) (bits : Nat) : Nat :=
  if negative then f.signBit + bits else bits

/-- The pattern nearest to an exact number. -/
def Format.encode (f : Format) : Binary → Nat
  | .finite negative mantissa power =>
      f.withSign negative (f.roundQuotient (scaleUp 2 mantissa power) (scaleUp 2 1 (-power)))
  | .infinite negative => f.withSign negative f.infinityBits
  | .undefined => f.undefinedBits

/-- The exact number held by a single. -/
def ofSingle (x : Float32) : Binary := Format.single.decode x.toBits.toNat

/-- The exact number held by a double. -/
def ofDouble (x : Float) : Binary := Format.double.decode x.toBits.toNat

/-- The single nearest to an exact number. -/
def Binary.toSingle (b : Binary) : Float32 :=
  Float32.ofBits (UInt32.ofNat (Format.single.encode b))

/-- The double nearest to an exact number. -/
def Binary.toDouble (b : Binary) : Float :=
  Float.ofBits (UInt64.ofNat (Format.double.encode b))

/-- The single nearest to a double; past the largest single it is infinite. -/
def singleOfDouble (x : Float) : Float32 := (ofDouble x).toSingle

/-- Every single is a double. -/
def doubleOfSingle (x : Float32) : Float := (ofSingle x).toDouble

/-- The integer nearest to a finite number, a half going away from zero. -/
def Binary.roundAway? : Binary → Option Int
  | .finite negative mantissa power =>
      let num := scaleUp 2 mantissa power
      let den := scaleUp 2 1 (-power)
      let magnitude : Int := (2 * num + den) / (2 * den)
      some (if negative then -magnitude else magnitude)
  | _ => none

end LineBasic.Number
