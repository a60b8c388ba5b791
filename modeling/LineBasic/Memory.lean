import Std.Data.TreeMap
import LineBasic.Act
import LineBasic.Code.Name
import LineBasic.Value.Basic

/-! Variable memory. Every variable and every array element has a cell, found by a text: the key of
its name, after the subscripts of an element, each followed by a comma. A cell that was never stored
to holds the empty value of its type. -/

namespace LineBasic

/-- The value of a variable that was never stored to. -/
def ValueType.default : ValueType → Value
  | text => .text ""
  | int => .int 0
  | single => .single 0
  | double => .double 0

/-- The value as a type holds it. -/
def ValueType.coerce : ValueType → Value → Except Fault Value
  | text, value => do
      let s ← value.toText
      if s.length > Value.maxTextLength then throw (.of .stringTooLong) else return .text s
  | int, value => do return .int (← value.toInt)
  | single, value => do return .single (← value.toSingle)
  | double, value => do return .double (← value.toDouble)

structure Memory where
  cells : Std.TreeMap String Value := ∅
  dimensions : Std.TreeMap String (List Int16) := ∅

namespace Memory

def empty : Memory := {}

/-- The greatest number of cells after which another store is still possible. -/
def maxCells : Nat := 65535

/-- The greatest subscript of a dimension that was not declared. -/
def defaultBound : Int16 := 10

/-- The value of a scalar. -/
def fetch (memory : Memory) (name : Name) : Value :=
  memory.cells[name.key]?.getD name.type.default

/-- Puts a value into a cell, unless memory is full. -/
def put (memory : Memory) (cell : String) (value : Value) : Except Fault Memory :=
  if memory.cells.size > maxCells then throw (.of .outOfMemory)
  else return { memory with cells := memory.cells.insert cell value }

/-- Stores a value into a scalar. -/
def store (memory : Memory) (name : Name) (value : Value) : Except Fault Memory := do
  memory.put name.key (← name.type.coerce value)

/-- Subscripts as integers that are not negative. -/
def subscripts : List Value → Except Fault (List Int16)
  | [] => return []
  | value :: rest => do
      let n ← value.toInt
      if n < 0 then throw (.of .subscriptOutOfRange)
      else return n :: (← subscripts rest)

/-- The text that an element's cell is found by. -/
def cellOf (name : Name) (indices : List Int16) : String :=
  indices.foldr (fun n text => toString n.toInt ++ "," ++ text) name.key

/-- Finds the cell of an element. An array that was not declared gets its dimensions here, and keeps
them even if the element lies outside of them. -/
def locate (name : Name) (values : List Value) : Act Memory String := do
  let indices ← subscripts values
  let memory ← get
  let bounds := memory.dimensions[name.key]?.getD (indices.map fun _ => defaultBound)
  set { memory with dimensions := memory.dimensions.insert name.key bounds }
  if bounds.length ≠ indices.length || (indices.zip bounds).any fun (n, bound) => bound < n then
    throw (.of .subscriptOutOfRange)
  else return cellOf name indices

/-- The value of an array element. -/
def fetchElement (name : Name) (values : List Value) : Act Memory Value := do
  let cell ← locate name values
  return (← get).cells[cell]?.getD name.type.default

/-- Stores a value into an array element. -/
def storeElement (name : Name) (values : List Value) (value : Value) : Act Memory Unit := do
  let cell ← locate name values
  let coerced ← name.type.coerce value
  set (← (← get).put cell coerced)

/-- Declares the dimensions of an array that has none yet. -/
def declare (memory : Memory) (name : Name) (values : List Value) : Except Fault Memory := do
  if memory.dimensions.contains name.key then throw (.of .duplicateDefinition)
  else
    let bounds ← subscripts values
    return { memory with dimensions := memory.dimensions.insert name.key bounds }

/-- The part of a cell's text that names the variable or array. -/
def cellName (cell : String) : String :=
  String.ofList (cell.toList.reverse.takeWhile (· != ',')).reverse

/-- Keeps the variables and arrays of the names and forgets all others. -/
def retain (memory : Memory) (names : List Name) : Memory :=
  let keys := names.map Name.key
  { cells := memory.cells.filter fun cell _ => keys.contains (cellName cell)
    dimensions := memory.dimensions.filter fun key _ => keys.contains key }

end Memory

end LineBasic
