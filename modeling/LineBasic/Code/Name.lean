import LineBasic.Text.Blank

/-! Names of variables, arrays and functions. A name is held in capitals and its last character may
be a sigil that fixes the type of what it names. -/

namespace LineBasic

/-- The types of values that a name can hold. -/
inductive ValueType where
  | text
  | int
  | single
  | double
  deriving Repr, DecidableEq

structure Name where
  spelling : String
  deriving Repr, DecidableEq

namespace Name

/-- The name that a word stands for, in any letter case. -/
def ofWord (word : String) : Name := ⟨Text.upper word⟩

/-- The type that the sigil gives; a name without one holds a single. -/
def type (name : Name) : ValueType :=
  match name.spelling.toList.getLast? with
  | some '$' => .text
  | some '#' => .double
  | some '%' => .int
  | _ => .single

/-- Whether the name is that of a function defined by the program. -/
def isFunction (name : Name) : Bool :=
  match name.spelling.toList with
  | 'F' :: 'N' :: _ => true
  | _ => false

/-- The name under which values are kept. The sigil of a single is left out, so that `A` and `A!` are
one variable. -/
def key (name : Name) : String :=
  String.ofList (Text.dropEndWhile (· == '!') name.spelling.toList)

end Name

end LineBasic
