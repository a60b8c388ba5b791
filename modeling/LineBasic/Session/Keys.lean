import Std.Data.TreeMap

/-! The keyboard. Key strokes wait in a queue of limited length until they are read byte by byte; a
stroke that does not fit is dropped. Function keys are translated into the text assigned to them, and
a control-C raises the break flag. -/

namespace LineBasic

/-- The escape sequences of F1 to F10 and of the four cursor keys, which act as F11 to F14. -/
def functionKeys : List (List UInt8) :=
  [[0x1B, 0x4F, 0x50], [0x1B, 0x4F, 0x51], [0x1B, 0x4F, 0x52], [0x1B, 0x4F, 0x53],
    [0x1B, 0x5B, 0x31, 0x35, 0x7E], [0x1B, 0x5B, 0x31, 0x37, 0x7E],
    [0x1B, 0x5B, 0x31, 0x38, 0x7E], [0x1B, 0x5B, 0x31, 0x39, 0x7E],
    [0x1B, 0x5B, 0x32, 0x30, 0x7E], [0x1B, 0x5B, 0x32, 0x31, 0x7E],
    [0x1B, 0x5B, 0x41], [0x1B, 0x5B, 0x44], [0x1B, 0x5B, 0x43], [0x1B, 0x5B, 0x42]]

/-- The label of a function key, counted from one. -/
def functionKeyName (number : Nat) : String := "F" ++ toString number

/-- The label of the function key that sends a sequence. -/
def functionKeyLabel? (sequence : List UInt8) : Option String :=
  (functionKeys.findIdx? (· == sequence)).map fun index => functionKeyName (index + 1)

structure Keys where
  /-- Strokes that wait, the oldest first. -/
  queue : List (List UInt8) := []
  /-- The unread bytes of the stroke being read. -/
  unread : List UInt8 := []
  /-- The texts assigned to function keys, by label. -/
  assigned : Std.TreeMap String String := ∅
  breakSeen : Bool := false

namespace Keys

/-- The number of strokes that can wait. -/
def capacity : Nat := 20

/-- The byte of control-C. -/
def breakByte : UInt8 := 0x03

/-- Assigns a text to a function key; an empty text takes the assignment back. -/
def assign (keys : Keys) (label text : String) : Keys :=
  { keys with
    assigned := if text.isEmpty then keys.assigned.erase label
      else keys.assigned.insert label text }

def assigned? (keys : Keys) (label : String) : Option String := keys.assigned[label]?

/-- The text assigned to the function key that sends a sequence. -/
def textFor? (keys : Keys) (sequence : List UInt8) : Option String := do
  keys.assigned? (← functionKeyLabel? sequence)

/-- The bytes that a stroke stands for. An escape sequence stands for the text assigned to its key,
and for nothing if there is none. -/
def translate (keys : Keys) : List UInt8 → List UInt8
  | 0x1B :: next :: rest =>
      match keys.textFor? (0x1B :: next :: rest) with
      | some text => text.toUTF8.toList
      | none => []
  | stroke => stroke

/-- Takes in a key stroke. -/
def send (keys : Keys) (stroke : List UInt8) : Keys :=
  let bytes := keys.translate stroke
  if bytes.isEmpty then keys
  else
    { keys with
      breakSeen := keys.breakSeen || bytes.contains breakByte
      queue := if keys.queue.length < capacity then keys.queue ++ [bytes] else keys.queue }

/-- Raises the break flag without a stroke. -/
def sendBreak (keys : Keys) : Keys := { keys with breakSeen := true }

def clearBreak (keys : Keys) : Keys := { keys with breakSeen := false }

/-- The next byte of input, if any waits. -/
def read (keys : Keys) : Option UInt8 × Keys :=
  match keys.unread, keys.queue with
  | byte :: rest, _ => (some byte, { keys with unread := rest })
  | [], (byte :: rest) :: queue => (some byte, { keys with unread := rest, queue })
  | [], [] :: queue => (none, { keys with queue })
  | [], [] => (none, keys)

/-- Every byte that waits, and the keyboard without them. -/
def drain (keys : Keys) : List UInt8 × Keys :=
  (keys.unread ++ keys.queue.flatten, { keys with unread := [], queue := [] })

end Keys

end LineBasic
