import LineBasic.Code.Builtin
import LineBasic.Value.Operation

/-! The built-in functions on values. All but RND depend on their arguments alone; RND draws from the
generator of its session, which a program can start anew from a number of its choice. -/

namespace LineBasic

/-- A generator of random numbers. The states it can be in are numbered. -/
structure Generator where
  /-- The state that a seed starts it in. -/
  seeded : UInt64 → Nat
  /-- What it draws in a state, and the state after that. -/
  draw : Nat → Float32 × Nat

/-- The generator that only counts, for a session that is given no other. -/
def Generator.counting : Generator where
  seeded seed := seed.toNat
  draw state := ((Number.Binary.finite false (state % 0x1000000) (-24)).toSingle, state + 1)

/-- The generator behind RND, the state it is in, and the number drawn last. -/
structure Random where
  generator : Generator := .counting
  state : Nat := 0
  last : Float32 := 0

namespace Random

/-- The generator started from a single. -/
def seeded (random : Random) (seed : Float32) : Random :=
  { random with state := random.generator.seeded seed.toBits.toUInt64 }

/-- Draws a number. -/
def draw (random : Random) : Random :=
  let (last, state) := random.generator.draw random.state
  { random with state, last }

/-- RND: a negative argument starts the generator anew, zero repeats the last number. -/
def next (random : Random) (argument : Option Value) : Except Fault (Value × Random) := do
  let x ←
    match argument with
    | some value => value.toSingle
    | none => pure 1
  let started := if x < 0 then random.seeded x else random
  let drawn := if x != 0 then started.draw else started
  return (.single drawn.last, drawn)

end Random

namespace Value

/-- A count of characters, between 0 and 255. -/
def toCount (value : Value) : Except Fault Nat := do
  let n ← value.toInt
  if 0 ≤ n ∧ n ≤ 255 then return n.toInt.toNat else throw (.of .illegalFunctionCall)

/-- Applies a function of singles or doubles; an integer is taken as a single. -/
def mapFloat (onSingle : Float32 → Float32) (onDouble : Float → Float) :
    Value → Except Fault Value
  | int n => return single (onSingle (singleOfInt n))
  | single x => return single (onSingle x)
  | double x => return double (onDouble x)
  | text _ => throw (.of .typeMismatch)

/-- The characters of a text from a position on, counted from zero. -/
def slice (s : String) (start count : Nat) : Value :=
  text (String.ofList ((s.toList.drop start).take count))

/-- The sixteen low bits of a natural. -/
def wrapInt (n : Nat) : Value := int (Int16.ofNat n)

def magnitude : Value → Except Fault Value
  | int n => return (int? n.toInt.natAbs).getD (single (singleOfInt n).abs)
  | single x => return single x.abs
  | double x => return double x.abs
  | text _ => throw (.of .typeMismatch)

def sign (value : Value) : Except Fault Value := do
  let x ← value.toDouble
  return int (if x > 0 then 1 else if x < 0 then -1 else 0)

def squareRoot (value : Value) : Except Fault Value := do
  if (← value.toDouble) < 0 then throw (.of .illegalFunctionCall)
  else value.mapFloat Float32.sqrt Float.sqrt

/-- The character of a code below 256. -/
def character (value : Value) : Except Fault Value := do
  return text (String.ofList [Char.ofNat (← value.toCount)])

/-- The code of the first character. -/
def characterCode (value : Value) : Except Fault Value := do
  match (← value.toText).toList with
  | c :: _ => return wrapInt c.toNat
  | [] => throw (.of .illegalFunctionCall)

def left (value count : Value) : Except Fault Value := do
  let s ← value.toText
  return slice s 0 (← count.toCount)

def right (value count : Value) : Except Fault Value := do
  let s ← value.toText
  return slice s (s.length - (← count.toCount)) s.length

/-- Characters from a position counted from one; without a count, as many as a text can have. -/
def mid (value start : Value) (count : Option Value) : Except Fault Value := do
  let s ← value.toText
  let position ← start.toCount
  if position = 0 then throw (.of .illegalFunctionCall)
  else
    let taken ←
      match count with
      | some n => n.toCount
      | none => pure maxTextLength
    return slice s (position - 1) taken

end Value

/-- Calls a function that depends on its arguments alone. -/
def Builtin.apply : Builtin → List Value → Except Fault Value
  | abs, [a] => a.magnitude
  | asc, [a] => a.characterCode
  | chr, [a] => a.character
  | cos, [a] => a.mapFloat Float32.cos Float.cos
  | int, [a] => a.mapFloat Float32.floor Float.floor
  | left, [a, b] => a.left b
  | len, [a] => do return Value.wrapInt (← a.toText).length
  | mid, [a, b] => a.mid b none
  | mid, [a, b, c] => a.mid b (some c)
  | right, [a, b] => a.right b
  | sgn, [a] => a.sign
  | sin, [a] => a.mapFloat Float32.sin Float.sin
  | sqr, [a] => a.squareRoot
  | str, [a] => if a.isText then throw (.of .typeMismatch) else return .text a.display
  | val, [a] => do return Value.ofNumericText (← a.toText)
  | _, _ => throw (.of .syntaxError)

/-- Calls the built-in function of a name. -/
def Random.call (random : Random) (name : String) (arguments : List Value) :
    Except Fault (Value × Random) :=
  match Builtin.ofName? name with
  | none => throw (.of .undefinedFunction)
  | some builtin =>
      if !builtin.accepts arguments.length then
        throw (.of .syntaxError "WRONG NUMBER OF ARGUMENTS")
      else if builtin = .rnd then random.next arguments.head?
      else do return (← builtin.apply arguments, random)

end LineBasic
