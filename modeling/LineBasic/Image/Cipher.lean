/-! The cipher of protected programs. Each byte is shifted and mixed with two keys whose lengths are
11 and 13, so the pattern repeats after 143 bytes. -/

namespace LineBasic.Image

def longKey : List UInt8 :=
  [0xA9, 0x84, 0x8D, 0xCD, 0x75, 0x83, 0x43, 0x63, 0x24, 0x83, 0x19, 0xF7, 0x9A]

def shortKey : List UInt8 :=
  [0x1E, 0x1D, 0xC4, 0x77, 0x26, 0x97, 0xE0, 0x74, 0x59, 0x88, 0x7C]

/-- The key byte that is mixed in at a position. -/
def keyAt (position : Nat) : UInt8 :=
  longKey.getD (position % 13) 0 ^^^ shortKey.getD (position % 11) 0

/-- Undoes the cipher for the byte at a position. -/
def decipher (position : Nat) (byte : UInt8) : UInt8 :=
  let mixed := (byte - 11 + UInt8.ofNat (position % 11)) ^^^ keyAt position
  mixed + 13 - UInt8.ofNat (position % 13)

/-- Undoes the cipher for the bytes after the mark of a protected program. -/
def unprotect (bytes : List UInt8) : List UInt8 :=
  bytes.mapIdx fun n byte => decipher (n % 143) byte

end LineBasic.Image
