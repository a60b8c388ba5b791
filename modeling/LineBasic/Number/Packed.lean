import LineBasic.Number.Binary

/-! The floating point numbers of stored programs. The last byte is the exponent, and a zero there
means zero; the byte before it holds the sign in place of the mantissa's leading one; the bytes
before that continue the mantissa, the lowest first. -/

namespace LineBasic.Number

/-- A power of two as a double, infinite past the largest one. -/
def powerOfTwo (power : Int) : Float := (Binary.finite false 1 power).toDouble

/-- The mantissa, of which the lowest 64 bits are kept. The bytes come highest first. -/
def packedMantissa (bytes : List UInt8) : Nat :=
  bytes.foldl (fun n byte => (256 * n + byte.toNat) % UInt64.size) 0

/-- The number held by the bytes, for any number of them. -/
def ofPacked (bytes : List UInt8) : Float :=
  match bytes.reverse with
  | exponent :: high :: low =>
      if exponent = 0 then 0
      else
        let mantissa := Float.ofNat (packedMantissa ((high ||| 0x80) :: low))
        let value := mantissa / powerOfTwo (8 * (bytes.length - 1 : Nat)) *
          powerOfTwo ((exponent.toNat : Int) - 128)
        if high &&& 0x80 != 0 then -value else value
  | _ => 0

end LineBasic.Number
