import LineBasic.Code.Operator
import LineBasic.Value.Basic

/-! Operators on values. Two numbers are first brought to the wider of their types; a sum, difference
or product of integers that leaves sixteen bits becomes a single. A result that is not finite is an
overflow. -/

namespace LineBasic

/-- Two operands of one type. -/
inductive Operands where
  | ints (left right : Int16)
  | singles (left right : Float32)
  | doubles (left right : Float)
  | texts (left right : String)
  deriving DecidableEq

namespace Operands

/-- Brings two values to their common type. -/
def of : Value → Value → Except Fault Operands
  | .int l, .int r => return ints l r
  | .int l, .single r => return singles (Value.singleOfInt l) r
  | .single l, .int r => return singles l (Value.singleOfInt r)
  | .single l, .single r => return singles l r
  | .double l, .int r => return doubles l (Value.doubleOfInt r)
  | .double l, .single r => return doubles l (Number.doubleOfSingle r)
  | .int l, .double r => return doubles (Value.doubleOfInt l) r
  | .single l, .double r => return doubles (Number.doubleOfSingle l) r
  | .double l, .double r => return doubles l r
  | .text l, .text r => return texts l r
  | _, _ => throw (.of .typeMismatch)

/-- The order of two operands. Numbers that cannot be compared count as equal; texts are compared by
their characters. -/
def order : Operands → Ordering
  | ints l r => compare l.toInt r.toInt
  | singles l r => if l < r then .lt else if r < l then .gt else .eq
  | doubles l r => if l < r then .lt else if r < l then .gt else .eq
  | texts l r => compare l r

end Operands

namespace Value

/-- A single that has to be finite. -/
def ofSingle (x : Float32) : Except Fault Value :=
  if x.isFinite then return single x else throw (.of .overflow)

/-- A double that has to be finite. -/
def ofDouble (x : Float) : Except Fault Value :=
  if x.isFinite then return double x else throw (.of .overflow)

/-- Truth is minus one and falsehood zero. -/
def ofBool (b : Bool) : Value := int (if b then -1 else 0)

/-- An integer result if it fits sixteen bits. -/
def int? (n : Int) : Option Value :=
  if -32768 ≤ n ∧ n ≤ 32767 then some (int (Int16.ofInt n)) else none

def negate : Value → Except Fault Value
  | int n => return (int? (-n.toInt)).getD (single (-(singleOfInt n)))
  | single x => return single (-x)
  | double x => return double (-x)
  | text _ => throw (.of .typeMismatch)

def add (left right : Value) : Except Fault Value := do
  match ← Operands.of left right with
  | .ints l r =>
      match int? (l.toInt + r.toInt) with
      | some value => return value
      | none => ofSingle (singleOfInt l + singleOfInt r)
  | .singles l r => ofSingle (l + r)
  | .doubles l r => ofDouble (l + r)
  | .texts l r =>
      if l.length + r.length > maxTextLength then throw (.of .stringTooLong)
      else return text (l ++ r)

def subtract (left right : Value) : Except Fault Value := do
  match ← Operands.of left right with
  | .ints l r =>
      match int? (l.toInt - r.toInt) with
      | some value => return value
      | none => ofSingle (singleOfInt l - singleOfInt r)
  | .singles l r => ofSingle (l - r)
  | .doubles l r => ofDouble (l - r)
  | .texts _ _ => throw (.of .typeMismatch)

def multiply (left right : Value) : Except Fault Value := do
  match ← Operands.of left right with
  | .ints l r =>
      match int? (l.toInt * r.toInt) with
      | some value => return value
      | none => ofSingle (singleOfInt l * singleOfInt r)
  | .singles l r => ofSingle (l * r)
  | .doubles l r => ofDouble (l * r)
  | .texts _ _ => throw (.of .typeMismatch)

/-- Division, which always gives a floating point number. -/
def divide (left right : Value) : Except Fault Value := do
  match ← Operands.of left right with
  | .ints l r =>
      if r = 0 then throw (.of .divisionByZero) else ofSingle (singleOfInt l / singleOfInt r)
  | .singles l r => if r == 0 then throw (.of .divisionByZero) else ofSingle (l / r)
  | .doubles l r => if r == 0 then throw (.of .divisionByZero) else ofDouble (l / r)
  | .texts _ _ => throw (.of .typeMismatch)

/-- Both operands as integers. Text is refused before any number is converted. -/
def bothInts (left right : Value) : Except Fault (Int16 × Int16) := do
  if left.isText || right.isText then throw (.of .typeMismatch)
  else return (← left.toInt, ← right.toInt)

/-- Integer division, cutting toward zero. -/
def divideInt (left right : Value) : Except Fault Value := do
  let (l, r) ← bothInts left right
  if r = 0 then throw (.of .divisionByZero)
  else
    match int? (l.toInt.tdiv r.toInt) with
    | some value => return value
    | none => throw (.of .overflow)

/-- The remainder of integer division, with the sign of the left operand. -/
def modulus (left right : Value) : Except Fault Value := do
  let (l, r) ← bothInts left right
  if r = 0 then throw (.of .divisionByZero)
  else return int (Int16.ofInt (l.toInt.tmod r.toInt))

/-- Multiplies `result` by the base raised to the exponent, by squaring. -/
def powerLoop (base result : Float32) (exponent : Nat) : Float32 :=
  let result := if exponent % 2 = 1 then result * base else result
  if _h : exponent / 2 = 0 then result else powerLoop (base * base) result (exponent / 2)
termination_by exponent
decreasing_by omega

/-- An integer power. A negative exponent inverts the power of its magnitude. -/
def intPower (base exponent : Int16) : Float32 :=
  let magnitude := powerLoop (singleOfInt base) 1 exponent.toInt.natAbs
  if exponent < 0 then 1 / magnitude else magnitude

def power (left right : Value) : Except Fault Value := do
  match ← Operands.of left right with
  | .ints l r => ofSingle (intPower l r)
  | .singles l r => ofSingle (l.pow r)
  | .doubles l r => ofDouble (l.pow r)
  | .texts _ _ => throw (.of .typeMismatch)

/-- A comparison, given the test on the order of the operands. -/
def compareBy (test : Ordering → Bool) (left right : Value) : Except Fault Value := do
  return ofBool (test (← Operands.of left right).order)

/-- A logical operator, applied to all sixteen bits. -/
def bitwise (op : Int16 → Int16 → Int16) (left right : Value) : Except Fault Value := do
  let l ← left.toInt
  let r ← right.toInt
  return int (op l r)

end Value

/-- Applies a unary operator. -/
def UnaryOp.apply : UnaryOp → Value → Except Fault Value
  | negate, value => value.negate
  | positive, value => if value.isText then throw (.of .typeMismatch) else return value
  | not, value => do return .int (~~~(← value.toInt))

/-- Applies a binary operator. -/
def BinaryOp.apply : BinaryOp → Value → Value → Except Fault Value
  | imp => Value.bitwise fun l r => ~~~l ||| r
  | eqv => Value.bitwise fun l r => ~~~(l ^^^ r)
  | xor => Value.bitwise (· ^^^ ·)
  | or => Value.bitwise (· ||| ·)
  | and => Value.bitwise (· &&& ·)
  | equal => Value.compareBy (· == .eq)
  | notEqual => Value.compareBy (· != .eq)
  | less => Value.compareBy (· == .lt)
  | lessEqual => Value.compareBy (· != .gt)
  | greater => Value.compareBy (· == .gt)
  | greaterEqual => Value.compareBy (· != .lt)
  | add => Value.add
  | subtract => Value.subtract
  | modulus => Value.modulus
  | divideInt => Value.divideInt
  | multiply => Value.multiply
  | divide => Value.divide
  | power => Value.power

namespace Operator

/-- Applies an operator to one value, which it has to be made for. -/
def applyToOne : Operator → Value → Except Fault Value
  | unary op, value => op.apply value
  | binary _, _ => throw (.of .internal "NOT A UNARY OPERATOR")

/-- Applies an operator to two values, which it has to be made for. -/
def applyToTwo : Operator → Value → Value → Except Fault Value
  | binary op, left, right => op.apply left right
  | unary _, _, _ => throw (.of .internal "NOT A BINARY OPERATOR")

end Operator

end LineBasic
