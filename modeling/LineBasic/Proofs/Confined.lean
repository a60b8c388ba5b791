import LineBasic.Drive.Disk
import LineBasic.Proofs.Chars

/-! File names and the folders of their drives. Whatever a name looks like, and whatever folder it is relative to,
the path that it becomes starts at a drive, and two periods do not lead above it. On disk the path stays below the
folder that the drive stands for: each part of it is a name as it was given, or an entry of the folder before it. -/

namespace LineBasic

namespace Drive

/-- The parts of a path between its slashes. -/
def segments (path : String) : List String := (Text.split '/' path.toList).map String.ofList

/-- A part of a path that leads somewhere from a folder, and not back out of it. -/
structure Descends (part : List Char) : Prop where
  nonempty : part ≠ []
  noPeriod : part ≠ ['.']
  noPeriods : part ≠ ['.', '.']
  noSlash : '/' ∉ part

/-- A path of which every part leads down, and which starts at a root. -/
structure Rooted (root : List Char) (path : List (List Char)) : Prop where
  root : path.head? = some root
  descends : ∀ part ∈ path, Descends part

theorem Rooted.exists_names {root : List Char} {path : List (List Char)} (h : Rooted root path) :
    ∃ names, path = root :: names := by
  cases path with
  | nil => cases h.root
  | cons first names =>
      obtain rfl := Option.some.inj h.root
      exact ⟨names, rfl⟩

/-- One part more leads down, or back but not past the root. -/
theorem Rooted.addPart {root part : List Char} {path : List (List Char)} (h : Rooted root path)
    (hslash : '/' ∉ part) : Rooted root (addPart path part) := by
  obtain ⟨names, rfl⟩ := h.exists_names
  unfold Drive.addPart
  split
  · exact h
  · rename_i hstays
    rw [not_or] at hstays
    split
    · split
      · refine ⟨?_, fun other hother => h.descends other (List.dropLast_subset _ hother)⟩
        cases names with
        | nil => simp at *
        | cons => rfl
      · exact h
    · refine ⟨rfl, fun other hother => ?_⟩
      rcases List.mem_append.mp hother with hother | hother
      · exact h.descends other hother
      · rw [List.mem_singleton.mp hother]
        exact ⟨hstays.1, hstays.2, ‹_›, hslash⟩

theorem Rooted.addParts {root : List Char} {path more : List (List Char)} (h : Rooted root path)
    (hslash : ∀ part ∈ more, '/' ∉ part) : Rooted root (more.foldl Drive.addPart path) := by
  induction more generalizing path with
  | nil => exact h
  | cons part rest ih =>
      rw [List.forall_mem_cons] at hslash
      exact ih (h.addPart hslash.1) hslash.2

/-- The folder of a drive is one part, unless the path that names the drive starts with a slash: then an empty part
follows. -/
theorem split_folderName (path : List Char) :
    ∃ root rest, Text.split '/' (folderName path) = root :: rest ∧ "drive".toList <+: root ∧ Descends root ∧
      (rest = [] ∨ root = "drive".toList ∧ rest = [[]]) := by
  unfold folderName
  generalize (path.head?.getD 'C').toUpper = letter
  by_cases hslash : letter = '/'
  · refine ⟨"drive".toList, [[]], ?_, List.prefix_rfl, ⟨by simp, by simp, by simp, by simp⟩, .inr ⟨rfl, rfl⟩⟩
    rw [hslash]
    exact Text.split_append_separator (by simp) []
  · have hroot : Descends ("drive".toList ++ [letter]) :=
      ⟨by simp, by simp, by simp, by simpa using Ne.symm hslash⟩
    exact ⟨_, [], Text.split_of_not_mem hroot.noSlash, List.prefix_append _ _, hroot, .inl rfl⟩

/-- A path that starts with the folder of a drive does not leave it. -/
theorem rooted_parts (path : List Char) (texts : List (List Char)) :
    ∃ root, "drive".toList <+: root ∧ Rooted root (parts (folderName path :: texts)) := by
  obtain ⟨root, rest, hsplit, hdrive, hroot, -⟩ := split_folderName path
  refine ⟨root, hdrive, ?_⟩
  have hstart : addPart [] root = [root] := by
    unfold addPart
    rw [if_neg (not_or.mpr ⟨hroot.nonempty, hroot.noPeriod⟩), if_neg hroot.noPeriods, List.nil_append]
  have hparts : parts (folderName path :: texts) =
      (rest ++ texts.flatMap (Text.split '/')).foldl addPart [root] := by
    rw [parts, List.flatMap_cons, hsplit, List.cons_append, List.foldl_cons, hstart]
  rw [hparts]
  refine Rooted.addParts ⟨rfl, fun part hpart => List.mem_singleton.mp hpart ▸ hroot⟩ fun part hpart => ?_
  rcases List.mem_append.mp hpart with hpart | hpart
  · exact Text.not_mem_of_mem_split (hsplit ▸ List.mem_cons_of_mem root hpart)
  · obtain ⟨text, -, hpart⟩ := List.mem_flatMap.mp hpart
    exact Text.not_mem_of_mem_split hpart

/-- The parts of the path that a file name becomes. Only where the name is empty, and the folder that it is relative to
names no drive, a part is empty. -/
theorem split_pathOf (target cwd : String) :
    ∃ root names, Text.split '/' (pathOf target cwd).toList = root :: names ∧ "drive".toList <+: root ∧
      Descends root ∧ ((∀ name ∈ names, Descends name) ∨ target = "" ∧ root = "drive".toList ∧ names = [[]]) := by
  by_cases hempty : target = ""
  · obtain ⟨root, rest, hsplit, hdrive, hroot, hrest⟩ := split_folderName (forwardSlashes cwd)
    refine ⟨root, rest, ?_, hdrive, hroot, ?_⟩
    · rw [← hsplit, pathOf, if_pos (by simp [hempty]), String.toList_ofList]
    · obtain rfl | ⟨hletterless, rfl⟩ := hrest
      · exact .inl (by simp)
      · exact .inr ⟨hempty, hletterless, rfl⟩
  · obtain ⟨path, texts, hpath⟩ : ∃ path texts,
        (pathOf target cwd).toList = Text.join '/' (parts (folderName path :: texts)) := by
      unfold pathOf
      rw [if_neg (by simpa using hempty), String.toList_ofList]
      split
      · exact ⟨_, _, rfl⟩
      · split <;> exact ⟨_, _, rfl⟩
    obtain ⟨root, hdrive, hrooted⟩ := rooted_parts path texts
    obtain ⟨names, hnames⟩ := hrooted.exists_names
    have hdescends := hrooted.descends
    rw [hnames] at hpath hdescends
    rw [List.forall_mem_cons] at hdescends
    refine ⟨root, names, ?_, hdrive, hdescends.1, .inl hdescends.2⟩
    rw [hpath, Text.split_join (by simp)]
    rw [List.forall_mem_cons]
    exact ⟨hdescends.1.noSlash, fun name hname => (hdescends.2 name hname).noSlash⟩

/-- A name of a file or folder that is not hidden and is one part of a path. -/
structure IsPlain (name : String) : Prop where
  nonempty : name ≠ ""
  noSlash : '/' ∉ name.toList
  shown : name.toList.head? ≠ some '.'

theorem Descends.isPlain {part : List Char} (h : Descends part) (hshown : part.head? ≠ some '.') :
    IsPlain (String.ofList part) where
  nonempty heq := h.nonempty (String.ofList_eq_empty_iff.mp heq)
  noSlash := by
    rw [String.toList_ofList]
    exact h.noSlash
  shown := by rwa [String.toList_ofList]

theorem Descends.ofList_ne {part : List Char} (h : Descends part) :
    String.ofList part ≠ "." ∧ String.ofList part ≠ ".." ∧ String.ofList part ≠ "" := by
  have hne : ∀ text : String, part ≠ text.toList → String.ofList part ≠ text := by
    rintro text hpart rfl
    exact hpart String.toList_ofList.symm
  exact ⟨hne "." h.noPeriod, hne ".." h.noPeriods, hne "" h.nonempty⟩

namespace Disk

variable {disk : Disk} {folder : List String} {name : String}

/-- A name as it was given, or that of an entry of the folder which is the same in small letters. -/
def SpellsIn (disk : Disk) (folder : List String) (name found : String) : Prop :=
  found = name ∨ ∃ entries, disk.follow [] folder = .ok (.folder entries) ∧ ∃ entry ∈ entries,
    entry.name = found ∧ found.map Char.toLower = name.map Char.toLower

/-- Names that lead on from a folder one after the other, and how each is spelled in the folder before it. -/
inductive Leads (disk : Disk) : List String → List String → List String → Prop
  | here (folder : List String) : Leads disk folder [] []
  | into {folder names rest : List String} {name found : String} (hname : SpellsIn disk folder name found)
      (h : Leads disk (folder ++ [found]) names rest) : Leads disk folder (name :: names) (found :: rest)

theorem spellsIn_nameIn (disk : Disk) (folder : List String) (name : String) :
    SpellsIn disk folder name (disk.nameIn folder name) := by
  unfold nameIn
  split
  · exact .inl rfl
  · split
    · rename_i entries hfolder
      split
      · rename_i entry hentry
        have hsame := List.find?_some hentry
        exact .inr ⟨entries, hfolder, entry, List.mem_of_find?_eq_some hentry, rfl, by simpa using hsame⟩
      · exact .inl rfl
    · exact .inl rfl

theorem exists_extend (disk : Disk) (folder names : List String) :
    ∃ found, disk.extend folder names = folder ++ found ∧ Leads disk folder names found := by
  induction names generalizing folder with
  | nil => exact ⟨[], (List.append_nil folder).symm, .here folder⟩
  | cons name rest ih =>
      obtain ⟨found, hextend, hleads⟩ := ih (folder ++ [disk.nameIn folder name])
      refine ⟨disk.nameIn folder name :: found, ?_, .into (spellsIn_nameIn disk folder name) hleads⟩
      have hfirst : disk.extend folder (name :: rest) = disk.extend (folder ++ [disk.nameIn folder name]) rest := rfl
      rw [hfirst, hextend, List.append_assoc]
      rfl

/-- What is the same in small letters is as plain. -/
theorem SpellsIn.isPlain {found : String} (h : SpellsIn disk folder name found) (hname : IsPlain name) :
    IsPlain found := by
  obtain rfl | ⟨-, -, entry, -, -, hsame⟩ := h
  · exact hname
  · have hchars : found.toList.map Char.toLower = name.toList.map Char.toLower := by
      rw [← String.toList_map, ← String.toList_map, hsame]
    refine ⟨?_, fun hmem => hname.noSlash ?_, fun hhead => hname.shown ?_⟩
    · rintro rfl
      rw [String.toList_empty, List.map_nil, eq_comm, List.map_eq_nil_iff] at hchars
      exact hname.nonempty (String.toList_inj.mp hchars)
    · have hlower : '/' ∈ name.toList.map Char.toLower := hchars ▸ List.mem_map_of_mem hmem
      obtain ⟨c, hc, hslash⟩ := List.mem_map.mp hlower
      rwa [← (Chars.toLower_eq_iff (by decide)).mp hslash]
    · have hheads := congrArg List.head? hchars
      rw [List.head?_map, List.head?_map, hhead, Option.map_some] at hheads
      obtain ⟨c, hc, hperiod⟩ := Option.map_eq_some_iff.mp hheads.symm
      rw [hc, (Chars.toLower_eq_iff (d := '.') (by decide)).mp hperiod]

theorem Leads.isPlain {names found : List String} (h : Leads disk folder names found)
    (hnames : ∀ name ∈ names, IsPlain name) : ∀ name ∈ found, IsPlain name := by
  induction h with
  | here => exact hnames
  | into hname _ ih =>
      rw [List.forall_mem_cons] at hnames ⊢
      exact ⟨hname.isPlain hnames.1, ih hnames.2⟩

end Disk

end Drive

namespace Drives

open Drive

theorem prefix_of_letterOf? {root : List Char} {letter : Char} (h : letterOf? root = some letter) :
    "drive".toList ++ [letter] <+: root := by
  unfold letterOf? at h
  split at h
  · cases h
    exact ⟨_, rfl⟩
  · cases h

/-- A name is resolved, or refused, by its path alone. The disk only says how each part is spelled. -/
theorem resolve_cases (drives : Drives) (name : String) {root : List Char} {names : List (List Char)}
    (hsplit : Text.split '/' (pathOf name drives.cwd).toList = root :: names) :
    (∃ fault, ∀ disk, drives.resolve disk name = .error fault) ∨
      ∃ letter folder, letterOf? root = some letter ∧ drives.folders.lookup letter = some folder ∧
        (∀ part ∈ names, part.head? ≠ some '.') ∧
        ∀ disk, drives.resolve disk name = .ok (disk.extend folder (names.map String.ofList)) := by
  cases hhidden : isHidden (pathOf name drives.cwd) with
  | true =>
      refine .inl ⟨.of .permissionDenied, fun disk => ?_⟩
      unfold resolve
      rw [if_pos hhidden]
      rfl
  | false =>
      have hresolve : ∀ disk, drives.resolve disk name =
          ((letterOf? root).bind fun letter => drives.folders.lookup letter).elim (.error (.of .pathNotFound))
            fun folder => .ok (disk.extend folder (names.map String.ofList)) := by
        intro disk
        unfold resolve
        rw [if_neg (by simp [hhidden]), hsplit]
        dsimp only
        cases (letterOf? root).bind fun letter => drives.folders.lookup letter <;> rfl
      rw [isHidden, hsplit, List.any_cons, Bool.or_eq_false_iff, List.any_eq_false] at hhidden
      cases hfolder : (letterOf? root).bind fun letter => drives.folders.lookup letter with
      | none =>
          rw [hfolder] at hresolve
          exact .inl ⟨_, hresolve⟩
      | some folder =>
          rw [hfolder] at hresolve
          obtain ⟨letter, hletter, hlookup⟩ := Option.bind_eq_some_iff.mp hfolder
          refine .inr ⟨letter, folder, hletter, hlookup, fun part hpart => ?_, hresolve⟩
          simpa using hhidden.2 part hpart

/-- **File names do not leave their drives.** The path of a name starts with a drive, no part of it is a period or two,
and none is empty unless the name is. On a disk the name is refused, whatever is on the disk, or it stands for a path
below the folder of its drive: each part that follows is one of the name, or what the folder before it calls that in
another letter case, and none is hidden. -/
theorem names_stay_on_drive :
    (∀ target cwd : String,
      (∃ root names, segments (pathOf target cwd) = root :: names ∧ "drive".toList <+: root.toList) ∧
      ∀ segment ∈ segments (pathOf target cwd), segment ≠ "." ∧ segment ≠ ".." ∧ (target ≠ "" → segment ≠ "")) ∧
    ∀ (drives : Drives) (name : String),
      (∃ fault, ∀ disk, drives.resolve disk name = .error fault) ∨
      ∃ root letter names folder, segments (pathOf name drives.cwd) = root :: names ∧
        "drive".toList ++ [letter] <+: root.toList ∧ drives.folders.lookup letter = some folder ∧
        ∀ disk, ∃ found, drives.resolve disk name = .ok (folder ++ found) ∧ disk.Leads folder names found ∧
          ∀ part ∈ names ++ found, IsPlain part := by
  constructor
  · intro target cwd
    obtain ⟨root, names, hsplit, hdrive, hroot, hnames⟩ := split_pathOf target cwd
    unfold segments
    rw [hsplit, List.map_cons]
    refine ⟨⟨_, _, rfl, by rwa [String.toList_ofList (l := root)]⟩, ?_⟩
    rw [List.forall_mem_cons, List.forall_mem_map]
    have hnamed : ∀ part, Descends part → String.ofList part ≠ "." ∧ String.ofList part ≠ ".." ∧
        (target ≠ "" → String.ofList part ≠ "") :=
      fun part hpart => ⟨hpart.ofList_ne.1, hpart.ofList_ne.2.1, fun _ => hpart.ofList_ne.2.2⟩
    refine ⟨hnamed root hroot, fun part hpart => ?_⟩
    obtain hdescends | ⟨hempty, -, rfl⟩ := hnames
    · exact hnamed part (hdescends part hpart)
    · rw [List.mem_singleton.mp hpart]
      exact ⟨by decide, by decide, fun hne => absurd hempty hne⟩
  · intro drives name
    obtain ⟨root, names, hsplit, hdrive, hroot, hnames⟩ := split_pathOf name drives.cwd
    obtain hrefused | ⟨letter, folder, hletter, hlookup, hshown, hresolve⟩ := drives.resolve_cases name hsplit
    · exact .inl hrefused
    · refine .inr ⟨String.ofList root, letter, names.map String.ofList, folder, ?_, ?_, hlookup, fun disk => ?_⟩
      · rw [segments, hsplit, List.map_cons]
      · rw [String.toList_ofList (l := root)]
        exact prefix_of_letterOf? hletter
      · obtain ⟨found, hextend, hleads⟩ := disk.exists_extend folder (names.map String.ofList)
        have hplain : ∀ part ∈ names.map String.ofList, IsPlain part := by
          rw [List.forall_mem_map]
          intro part hpart
          obtain hdescends | ⟨-, hletterless, -⟩ := hnames
          · exact (hdescends part hpart).isPlain (hshown part hpart)
          · rw [hletterless] at hletter
            cases hletter
        refine ⟨found, by rw [hresolve, hextend], hleads, fun part hpart => ?_⟩
        rcases List.mem_append.mp hpart with hpart | hpart
        · exact hplain part hpart
        · exact hleads.isPlain hplain part hpart

/-- A drive, and a name that tries to leave it. -/
def gamesDrives : Drives := Drives.assign { cwd := "C:\\OLD" } 'c' ["srv"]

def strayingName : String := "..\\../GAMES\\.\\MENU.BAS"

theorem names_stay_on_drive_upAndDown :
    segments (pathOf strayingName gamesDrives.cwd) = ["driveC", "GAMES", "MENU.BAS"] ∧
      (∀ segment ∈ segments (pathOf strayingName gamesDrives.cwd), segment ≠ "." ∧ segment ≠ ".." ∧ segment ≠ "") ∧
      ∃ folder, gamesDrives.folders.lookup 'C' = some folder ∧ ∀ disk, ∃ found,
        gamesDrives.resolve disk strayingName = .ok (folder ++ found) ∧
        disk.Leads folder ["GAMES", "MENU.BAS"] found ∧ ∀ part ∈ found, IsPlain part := by
  have hsegments : segments (pathOf strayingName gamesDrives.cwd) = ["driveC", "GAMES", "MENU.BAS"] := by rfl
  have hresolve : gamesDrives.resolve (fun _ => none) strayingName = .ok ["srv", "GAMES", "MENU.BAS"] := by rfl
  refine ⟨hsegments, fun segment hsegment => ?_, ?_⟩
  · obtain ⟨hperiod, hperiods, hempty⟩ :=
      (names_stay_on_drive.1 strayingName gamesDrives.cwd).2 segment hsegment
    exact ⟨hperiod, hperiods, hempty (by decide)⟩
  · obtain ⟨fault, hrefused⟩ | ⟨root, letter, names, folder, hpath, hroot, hlookup, hfound⟩ :=
      names_stay_on_drive.2 gamesDrives strayingName
    · have hboth := hresolve.symm.trans (hrefused fun _ => none)
      cases hboth
    · rw [hsegments, List.cons.injEq] at hpath
      obtain ⟨rfl, rfl⟩ := hpath
      obtain rfl : letter = 'C' := by simpa using hroot
      refine ⟨folder, hlookup, fun disk => ?_⟩
      obtain ⟨found, hok, hleads, hplain⟩ := hfound disk
      exact ⟨found, hok, hleads, fun part hpart => hplain part (List.mem_append_right _ hpart)⟩

end Drives

end LineBasic
