import LineBasic.Text.Split

/-! File names. A name may start with a drive letter and a colon, and its parts are separated by
slashes of either kind. On a file server and on disk it becomes a path below a folder for the drive,
and nothing in a name leads out of that folder. -/

namespace LineBasic.Drive

/-- Slashes of one kind. -/
def forwardSlashes (text : String) : List Char :=
  text.toList.map fun c => if c = '\\' then '/' else c

/-- Whether a name starts with a drive letter and a colon. -/
def hasLetter : List Char → Bool
  | letter :: ':' :: _ => letter.isAlpha
  | _ => false

/-- The folder of a drive, by the first character of a path; the drive is C where there is none. -/
def folderName (path : List Char) : List Char :=
  "drive".toList ++ [(path.head?.getD 'C').toUpper]

/-- Adds a part to a path. A part that is empty or a period changes nothing, and two periods go back,
but never past the first part. -/
def addPart (path : List (List Char)) (part : List Char) : List (List Char) :=
  if part = [] ∨ part = ['.'] then path
  else if part = ['.', '.'] then if path.length > 1 then path.dropLast else path
  else path ++ [part]

/-- The parts that several texts lead through, one after the other. -/
def parts (texts : List (List Char)) : List (List Char) :=
  (texts.flatMap (Text.split '/')).foldl addPart []

/-- The path of a file name, given the folder that names are relative to. -/
def pathOf (target cwd : String) : String :=
  let here := forwardSlashes cwd
  let name := forwardSlashes target
  let texts :=
    if hasLetter name then [folderName name, name.drop 2]
    else if name.head? = some '/' then [folderName here, name]
    else [folderName here, if hasLetter here then here.drop 2 else [], name]
  if target.isEmpty then String.ofList (folderName here)
  else String.ofList (Text.join '/' (parts texts))

/-- The address of a file on a file server. -/
def addressOf (server cwd path : String) : String :=
  (if server.toList.getLast? = some '/' then server else server ++ "/") ++ pathOf path cwd

/-- Whether a part of a name starts with a period. -/
def isHidden (name : String) : Bool :=
  (Text.split '/' name.toList).any fun part => part.head? == some '.'

end LineBasic.Drive
