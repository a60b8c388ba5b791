import LineBasic.Fault

/-! Stacks of limited size. Entries are counted from the bottom, which is entry zero; they are held
with the topmost first, and their number is kept beside them. -/

namespace LineBasic

structure Stack (α : Type) where
  /-- The detail of the fault that a full stack gives. -/
  overflow : String
  /-- The entries, the topmost first. -/
  entries : List α
  size : Nat
  size_eq : size = entries.length
  deriving DecidableEq

namespace Stack

variable {α : Type}

def maxSize : Nat := 65535

/-- The stack without entries. -/
def empty (overflow : String) : Stack α := ⟨overflow, [], 0, rfl⟩

/-- The entries from the bottom to the top. -/
def toList (stack : Stack α) : List α := stack.entries.reverse

def isEmpty (stack : Stack α) : Bool := stack.entries.isEmpty

/-- The topmost entry. -/
def top? (stack : Stack α) : Option α := stack.entries.head?

def push (stack : Stack α) (entry : α) : Except Fault (Stack α) :=
  if stack.size ≥ maxSize then throw (.of .outOfMemory stack.overflow)
  else
    return { stack with
      entries := entry :: stack.entries
      size := stack.size + 1
      size_eq := by simp [stack.size_eq] }

/-- Keeps the lowest `count` entries. -/
def truncate (stack : Stack α) (count : Nat) : Stack α :=
  { stack with
    entries := stack.entries.drop (stack.size - count)
    size := min count stack.size
    size_eq := by
      rw [List.length_drop, ← stack.size_eq]
      omega }

/-- Removes the topmost entry. -/
def pop (stack : Stack α) : Except Fault (α × Stack α) :=
  match stack.top? with
  | some entry => return (entry, stack.truncate (stack.size - 1))
  | none => throw (.of .internal "UNDERFLOW")

/-- Removes entries from the top as long as they satisfy the test. -/
def popWhile (stack : Stack α) (test : α → Bool) : Stack α :=
  stack.truncate (stack.size - (stack.entries.takeWhile test).length)

/-- Changes the topmost entry, if there is one. -/
def modifyTop (stack : Stack α) (change : α → α) : Stack α :=
  { stack with
    entries := stack.entries.modifyHead change
    size_eq := by rw [List.length_modifyHead, stack.size_eq] }

def clear (stack : Stack α) : Stack α := empty stack.overflow

/-- The index of the topmost entry that satisfies the test. -/
def lastIndex? (stack : Stack α) (test : α → Bool) : Option Nat :=
  (stack.entries.findIdx? test).map fun depth => stack.size - 1 - depth

end Stack

end LineBasic
