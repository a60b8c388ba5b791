/-! Operators, their spelling and how strongly they bind. -/

namespace LineBasic

inductive UnaryOp where
  | negate
  | positive
  | not
  deriving Repr, DecidableEq

inductive BinaryOp where
  | imp
  | eqv
  | xor
  | or
  | and
  | equal
  | notEqual
  | less
  | lessEqual
  | greater
  | greaterEqual
  | add
  | subtract
  | modulus
  | divideInt
  | multiply
  | divide
  | power
  deriving Repr, DecidableEq

/-- How strongly an operator binds; a looser one has the smaller level. -/
abbrev Level := Nat

namespace Level

def lowest : Level := 0

/-- The level of the unary operators, between the products and the power. -/
def ofUnary : Level := 11

/-- The level of an expression that has no operator on its outside. -/
def atom : Level := 13

end Level

namespace BinaryOp

def level : BinaryOp → Level
  | imp => 1
  | eqv => 2
  | xor => 3
  | or => 4
  | and => 5
  | equal | notEqual | less | lessEqual | greater | greaterEqual => 6
  | add | subtract => 7
  | modulus => 8
  | divideInt => 9
  | multiply | divide => 10
  | power => 12

def spelling : BinaryOp → String
  | imp => "IMP"
  | eqv => "EQV"
  | xor => "XOR"
  | or => "OR"
  | and => "AND"
  | equal => "="
  | notEqual => "<>"
  | less => "<"
  | lessEqual => "<="
  | greater => ">"
  | greaterEqual => ">="
  | add => "+"
  | subtract => "-"
  | modulus => "MOD"
  | divideInt => "\\"
  | multiply => "*"
  | divide => "/"
  | power => "^"

end BinaryOp

/-- The spelling of a unary operator, with the blank that a word needs after it. -/
def UnaryOp.spelling : UnaryOp → String
  | negate => "-"
  | positive => "+"
  | not => "NOT "

/-- An operator of either arity. -/
inductive Operator where
  | unary (op : UnaryOp)
  | binary (op : BinaryOp)
  deriving Repr, DecidableEq

end LineBasic
