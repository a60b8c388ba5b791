/-! The built-in functions, their names and how many arguments they take. -/

namespace LineBasic

inductive Builtin where
  | abs
  | asc
  | chr
  | cos
  | int
  | left
  | len
  | mid
  | right
  | rnd
  | sgn
  | sin
  | sqr
  | str
  | val
  deriving Repr, DecidableEq

namespace Builtin

def spelling : Builtin → String
  | abs => "ABS"
  | asc => "ASC"
  | chr => "CHR$"
  | cos => "COS"
  | int => "INT"
  | left => "LEFT$"
  | len => "LEN"
  | mid => "MID$"
  | right => "RIGHT$"
  | rnd => "RND"
  | sgn => "SGN"
  | sin => "SIN"
  | sqr => "SQR"
  | str => "STR$"
  | val => "VAL"

def all : List Builtin :=
  [abs, asc, chr, cos, int, left, len, mid, right, rnd, sgn, sin, sqr, str, val]

/-- The function that has a name, which is given in capitals. -/
def ofName? (name : String) : Option Builtin :=
  all.find? fun builtin => builtin.spelling == name

/-- The least and the greatest number of arguments. -/
def arity : Builtin → Nat × Nat
  | left | right => (2, 2)
  | mid => (2, 3)
  | rnd => (0, 1)
  | _ => (1, 1)

/-- Whether a function may be called with so many arguments. -/
def accepts (builtin : Builtin) (count : Nat) : Bool :=
  builtin.arity.1 ≤ count && count ≤ builtin.arity.2

end Builtin

end LineBasic
