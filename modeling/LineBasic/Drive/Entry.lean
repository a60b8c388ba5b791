import LineBasic.Drive.Path
import LineBasic.Text.Json

/-! Entries of a folder, how FILES shows them, and their exchange form. -/

namespace LineBasic.Drive

structure Entry where
  name : String
  isFolder : Bool
  deriving Repr, DecidableEq

/-- A text in a field of fixed width, cut or filled up with blanks. -/
def inField (width : Nat) (text : List Char) : String :=
  String.ofList (text.take width ++ List.replicate (width - text.length) ' ')

/-- A name as FILES shows it: eight characters, a period, three characters of the extension, and a
mark for folders. A longer name shows seven characters and a plus sign. -/
def Entry.display (entry : Entry) : String :=
  let fields := Text.split '.' entry.name.toList
  let base := fields.headD []
  let shown := if base.length > 8 then base.take 7 ++ ['+'] else base
  let extension := (fields[1]?).getD [' ']
  inField 8 shown ++ "." ++ inField 3 extension ++ if entry.isFolder then "<dir>" else "    "

/-- What FILES shows: a line for each entry that is not hidden. -/
def display (entries : List Entry) : String :=
  (entries.filter fun entry => !isHidden entry.name).foldr
    (fun entry text => entry.display ++ "\n" ++ text) ""

/-- An entry in its exchange form. -/
def Entry.json (entry : Entry) : String :=
  "\x7b\"name\":" ++ Text.Json.quote entry.name ++ ",\"isDirectory\":" ++
    (if entry.isFolder then "true" else "false") ++ "\x7d"

/-- Whether the last part of a name starts with a period. -/
def endsHidden (name : String) : Bool :=
  ((Text.split '/' name.toList).getLastD []).head? == some '.'

/-- Entries in their exchange form, without those whose own names are hidden. -/
def json (entries : List Entry) : String :=
  let shown := entries.filter fun entry => !endsHidden entry.name
  "[" ++ String.intercalate "," (shown.map Entry.json) ++ "]"

/-- The value of the only field that has one of the names. -/
def onlyField? (names : List String) (fields : List (String × Text.Json)) : Option Text.Json :=
  match fields.filter fun field => names.contains field.1 with
  | [(_, value)] => some value
  | _ => none

/-- The name and kind of an entry. -/
def entryOf? : Text.Json → Text.Json → Option Entry
  | .string (some name), .bool isFolder => some ⟨name, isFolder⟩
  | _, _ => none

/-- Reads an entry: an object with the two fields, each once, or an array of the two values. Other
fields are left alone. -/
def Entry.ofJson? : Text.Json → Option Entry
  | .array [name, isFolder] => entryOf? name isFolder
  | .object fields => do
      let named ← fields.mapM fun (name, value) => name.map fun text => (text, value)
      entryOf? (← onlyField? ["name"] named) (← onlyField? ["isDirectory", "isdir"] named)
  | _ => none

/-- Reads entries from their exchange form. -/
def entriesOf? (text : String) : Option (List Entry) :=
  match Text.Json.ofText? text with
  | some (.array items) => items.mapM Entry.ofJson?
  | _ => none

end LineBasic.Drive
