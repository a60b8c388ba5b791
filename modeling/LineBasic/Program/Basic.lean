import LineBasic.Code.Parse
import LineBasic.Image.Decode

/-! The stored program: numbered lines in ascending order, the direct line entered last, and whether
the program may be listed. -/

namespace LineBasic

/-- Entries in ascending order of their numbers. -/
structure Numbered (β : Type) where
  entries : List (Nat × β)
  ascending : entries.Pairwise (fun a b => a.1 < b.1)

namespace Numbered

variable {β : Type}

def empty : Numbered β := ⟨[], List.Pairwise.nil⟩

/-- Puts an entry in its place, in place of one with its number. -/
def place (number : Nat) (value : β) : List (Nat × β) → List (Nat × β)
  | [] => [(number, value)]
  | first :: rest =>
      if number < first.1 then (number, value) :: first :: rest
      else if number = first.1 then (number, value) :: rest
      else first :: place number value rest

theorem mem_place {number : Nat} {value : β} {entries : List (Nat × β)} {entry : Nat × β}
    (h : entry ∈ place number value entries) : entry = (number, value) ∨ entry ∈ entries := by
  induction entries with
  | nil => simpa [place] using h
  | cons first rest ih =>
      unfold place at h
      split at h
      · simpa using h
      · split at h
        · rcases List.mem_cons.1 h with h | h
          · exact .inl h
          · exact .inr (List.mem_cons_of_mem _ h)
        · rcases List.mem_cons.1 h with h | h
          · exact .inr (h ▸ List.mem_cons_self)
          · rcases ih h with h | h
            · exact .inl h
            · exact .inr (List.mem_cons_of_mem _ h)

theorem place_ascending {entries : List (Nat × β)}
    (h : entries.Pairwise (fun a b => a.1 < b.1)) (number : Nat) (value : β) :
    (place number value entries).Pairwise (fun a b => a.1 < b.1) := by
  induction entries with
  | nil => simp [place]
  | cons first rest ih =>
      obtain ⟨hfirst, hrest⟩ := List.pairwise_cons.1 h
      unfold place
      split
      · rename_i hlt
        refine List.pairwise_cons.2 ⟨fun entry hentry => ?_, h⟩
        rcases List.mem_cons.1 hentry with rfl | hentry
        · exact hlt
        · exact Nat.lt_trans hlt (hfirst entry hentry)
      · split
        · rename_i heq
          refine List.pairwise_cons.2 ⟨fun entry hentry => ?_, hrest⟩
          exact heq ▸ hfirst entry hentry
        · rename_i hlt hne
          refine List.pairwise_cons.2 ⟨fun entry hentry => ?_, ih hrest⟩
          rcases mem_place hentry with rfl | hentry
          · simp only
            omega
          · exact hfirst entry hentry

/-- Puts an entry in its place, in place of one with its number. -/
def insert (numbered : Numbered β) (number : Nat) (value : β) : Numbered β :=
  ⟨place number value numbered.entries, place_ascending numbered.ascending number value⟩

/-- Takes out the entry with a number. -/
def erase (numbered : Numbered β) (number : Nat) : Numbered β :=
  ⟨numbered.entries.filter (·.1 != number), numbered.ascending.filter _⟩

def get? (numbered : Numbered β) (number : Nat) : Option β :=
  numbered.entries.lookup number

def contains (numbered : Numbered β) (number : Nat) : Bool :=
  (numbered.get? number).isSome

/-- The least number. -/
def first? (numbered : Numbered β) : Option Nat := numbered.entries.head?.map (·.1)

/-- The least number above another. -/
def after? (numbered : Numbered β) (number : Nat) : Option Nat :=
  (numbered.entries.find? (number < ·.1)).map (·.1)

/-- Puts every entry of the other in its place. -/
def merge (numbered other : Numbered β) : Numbered β :=
  other.entries.foldl (fun merged entry => merged.insert entry.1 entry.2) numbered

end Numbered

structure Program where
  lines : Numbered (List Statement) := .empty
  direct : List Statement := []
  guarded : Bool := false

/-- One DATA item with the line it stands on. -/
structure DataItem where
  line : Nat
  datum : Datum
  deriving Repr, DecidableEq

namespace Statement

mutual

/-- The commands of a statement from left to right, those in its branches included. -/
def commands : Statement → List Command
  | command c => [c]
  | choice _ thenList elseList => commandsOfAll thenList ++ commandsOfAll elseList

/-- The commands of a statement list from left to right. -/
def commandsOfAll : List Statement → List Command
  | [] => []
  | statement :: rest => statement.commands ++ commandsOfAll rest

end

mutual

/-- The number of statements in a statement, itself included. -/
def count : Statement → Nat
  | command _ => 1
  | choice _ thenList elseList => 1 + countAll thenList + countAll elseList

/-- The number of statements in a statement list. -/
def countAll : List Statement → Nat
  | [] => 0
  | statement :: rest => statement.count + countAll rest

end

end Statement

namespace Program

def empty : Program := {}

/-- Stores a line. A numbered line without statements deletes the line of its number, and a direct
line takes the place of the direct line before. -/
def insert (program : Program) (line : Line) : Program :=
  match line.number with
  | none => { program with direct := line.statements }
  | some number =>
      if line.isEmpty then { program with lines := program.lines.erase number }
      else { program with lines := program.lines.insert number line.statements }

/-- The lines of the other replace lines with the same numbers. -/
def merge (program other : Program) : Program :=
  { program with
    guarded := program.guarded || other.guarded
    lines := program.lines.merge other.lines }

/-- The program in a file of any form, and the faults of what could not be read. Direct statements
in a file are faults as well. -/
def ofBytes (bytes : List UInt8) : Program × List Fault :=
  let parsed := Parsed.ofTokens (Image.tokens bytes)
  let numbered := parsed.lines.filter fun line => !line.isDirect
  let direct := parsed.lines.filter fun line => line.isDirect && !line.isEmpty
  (numbered.foldl insert { guarded := Image.Form.ofBytes bytes = .guarded },
    parsed.faults ++ direct.map fun _ => .of .syntaxError "DIRECT STATEMENT IN FILE")

def isEmpty (program : Program) : Bool := program.lines.entries.isEmpty

def lineCount (program : Program) : Nat := program.lines.entries.length

/-- The number of statements on the numbered lines, without those inside IF. -/
def statementCount (program : Program) : Nat :=
  program.lines.entries.foldr (fun entry total => entry.2.length + total) 0

/-- Every DATA item by ascending line and from left to right. -/
def data (program : Program) : List DataItem :=
  program.lines.entries.flatMap fun (line, statements) =>
    (Statement.commandsOfAll statements).flatMap fun
      | .data items => items.map fun datum => ⟨line, datum⟩
      | _ => []

/-- The names in COMMON statements. -/
def common (program : Program) : List Name :=
  program.lines.entries.flatMap fun (_, statements) =>
    (Statement.commandsOfAll statements).flatMap fun
      | .common names => names
      | _ => []

/-- The listing of the lines within a range. A guarded program is not listed. -/
def list (program : Program) (first last : Option Nat) : Except Fault String :=
  if program.guarded then throw (.of .illegalFunctionCall)
  else
    let shown := program.lines.entries.filter fun entry =>
      first.getD 0 ≤ entry.1 && entry.1 ≤ last.getD Line.maxNumber
    return shown.foldr
      (fun entry text => (Line.listing ⟨some entry.1, entry.2⟩) ++ "\n" ++ text) ""

end Program

end LineBasic
