import LineBasic.Drive.Entry
import LineBasic.Fault

/-! Drives on a disk. A disk tells what stands at a path; each drive letter stands for a folder of
it. Names are matched in any letter case where they do not match as written. -/

namespace LineBasic.Drive

/-- What stands at a path of a disk. -/
inductive Node where
  | file (bytes : List UInt8)
  | folder (entries : List Entry)
  deriving DecidableEq

/-- A disk, as what stands at each path. -/
abbrev Disk := List String → Option Node

/-- Why a path cannot be followed. -/
inductive Obstacle where
  | missing
  | notFolder
  | isFolder
  | nameTooLong
  | badName
  deriving Repr, DecidableEq

/-- The fault that an obstacle gives, where a missing path has its own cause. -/
def Obstacle.fault (whenMissing : Cause) : Obstacle → Fault
  | missing => .of whenMissing
  | notFolder => .of .deviceFault "Not a directory (os error 20)"
  | isFolder => .of .deviceFault "Is a directory (os error 21)"
  | nameTooLong => .of .deviceFault "File name too long (os error 36)"
  | badName => .of .deviceFault "file name contained an unexpected NUL byte"

namespace Disk

/-- The greatest number of bytes that a name may have. -/
def maxNameBytes : Nat := 255

/-- The greatest number of bytes that a whole path may have. -/
def maxPathBytes : Nat := 4095

/-- The number of bytes of a path, with the slash before each name. -/
def pathBytes (path : List String) : Nat :=
  path.foldr (fun name total => name.utf8ByteSize + 1 + total) 0

/-- The folder that a name in a folder leads to. A period stays where it is, and two periods go
back. -/
def enter (path : List String) (name : String) : List String :=
  if name = "." then path
  else if name = ".." then path.dropLast
  else path ++ [name]

/-- Follows names one by one from a path on. -/
def follow (disk : Disk) (path : List String) : List String → Except Obstacle Node
  | [] =>
      match disk path with
      | some node => return node
      | none => throw .missing
  | name :: rest =>
      match disk path with
      | none => throw .missing
      | some (.file _) => throw .notFolder
      | some (.folder _) =>
          if name.utf8ByteSize > maxNameBytes then throw .nameTooLong
          else follow disk (enter path name) rest

/-- What stands at a path. The names of the path and its length are looked at before it is
followed. -/
def reach (disk : Disk) (path : List String) : Except Obstacle Node :=
  if path.any fun name => name.toList.contains (Char.ofNat 0) then throw .badName
  else if pathBytes path > maxPathBytes then throw .nameTooLong
  else disk.follow [] path

/-- The name of an entry as the folder has it: as written, or else in another letter case. -/
def nameIn (disk : Disk) (path : List String) (name : String) : String :=
  match disk.follow [] (path ++ [name]) with
  | .ok _ => name
  | .error _ =>
      match disk.follow [] path with
      | .ok (.folder entries) =>
          match entries.find? fun entry =>
            entry.name.map Char.toLower == name.map Char.toLower with
          | some entry => entry.name
          | none => name
      | _ => name

/-- Extends a path name by name, each as its folder has it. -/
def extend (disk : Disk) (path : List String) (names : List String) : List String :=
  names.foldl (fun path name => path ++ [disk.nameIn path name]) path

/-- Whether a tree of files and folders has a folder at a path. -/
def isFolderOf (tree : List (List String × Option (List UInt8))) (path : List String) : Bool :=
  path.isEmpty ||
    tree.any fun (at', content) =>
      path.isPrefixOf at' && (path.length < at'.length || content.isNone)

/-- The disk that holds a tree of files and folders, each given by its path, a file with its bytes.
The folders above them are there as well. -/
def ofTree (tree : List (List String × Option (List UInt8))) : Disk := fun path =>
  if isFolderOf tree path then
    let names := (tree.filterMap fun (at', _) =>
      if path.isPrefixOf at' then at'[path.length]? else none).eraseDups
    some (.folder (names.map fun name => ⟨name, isFolderOf tree (path ++ [name])⟩))
  else
    (tree.find? fun (at', _) => at' == path).bind fun (_, content) => content.map .file

end Disk

end Drive

/-- Drive letters and the folders they stand for, and the folder that names are relative to. -/
structure Drives where
  cwd : String
  folders : List (Char × List String) := []
  deriving DecidableEq

namespace Drives

open Drive

/-- Lets a letter, in either case, stand for a folder. -/
def assign (drives : Drives) (letter : Char) (folder : List String) : Drives :=
  { drives with folders := (letter.toUpper, folder) :: drives.folders }

/-- The letter of the drive that a path starts with. -/
def letterOf? : List Char → Option Char
  | 'd' :: 'r' :: 'i' :: 'v' :: 'e' :: letter :: _ => some letter
  | _ => none

/-- The path on disk that a file name stands for. Hidden names are refused. -/
def resolve (drives : Drives) (disk : Disk) (name : String) : Except Fault (List String) :=
  let path := pathOf name drives.cwd
  if isHidden path then throw (.of .permissionDenied)
  else
    match Text.split '/' path.toList with
    | first :: rest =>
        match (letterOf? first).bind fun letter => drives.folders.lookup letter with
        | some folder => return disk.extend folder (rest.map String.ofList)
        | none => throw (.of .pathNotFound)
    | [] => throw (.of .pathNotFound)

/-- The bytes of a file. -/
def fetch (drives : Drives) (disk : Disk) (name : String) : Except Fault (List UInt8) := do
  let path ← drives.resolve disk name
  match disk.reach path with
  | .ok (.file bytes) => return bytes
  | .ok (.folder _) => throw (Obstacle.isFolder.fault .fileNotFound)
  | .error obstacle => throw (obstacle.fault .fileNotFound)

/-- The entries of a folder that are not hidden, in the order of their names. -/
def list (drives : Drives) (disk : Disk) (name : String) : Except Fault (List Entry) := do
  let path ← drives.resolve disk name
  match disk.reach path with
  | .ok (.folder entries) =>
      let shown := entries.filter fun entry => entry.name.toList.head? != some '.'
      return shown.mergeSort fun a b => decide (a.name ≤ b.name)
  | .ok (.file _) => throw (Obstacle.notFolder.fault .pathNotFound)
  | .error obstacle => throw (obstacle.fault .pathNotFound)

end Drives

end LineBasic
