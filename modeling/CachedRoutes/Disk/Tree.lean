import CachedRoutes.Disk.Files

/-!
# File trees

A file tree in memory: files with their bytes, directories and symbolic links, each at a location,
which is the list of names from the root on. Paths are followed the way a system does it: part by
part, through links, and `..` leads to the directory that really encloses the present one.

A tree is seen through `lookup?`: `lookup?_set_self` and `lookup?_set_of_ne` say what setting an
entry does to that view.
-/

namespace CachedRoutes.Disk

/-- The names from the root of the tree on. -/
abbrev Location := List String

/-- What stands at a location. -/
inductive Entry where
  | file (bytes : ByteArray)
  | directory
  /-- A symbolic link to a path. -/
  | link (target : Path)

/-- The kind of an entry. -/
def Entry.kind : Entry → Kind
  | file _ => .file
  | directory => .directory
  | link _ => .link

/-- Is the entry a directory? -/
def Entry.isDirectory : Entry → Bool
  | directory => true
  | _ => false

/-- A file tree, and the directory that relative paths start from. -/
structure Tree where
  /-- The entries, each location once; the root is a directory and not listed. -/
  entries : List (Location × Entry)
  /-- The working directory. -/
  workingDirectory : Location
  /-- Where the files are that may not be read. -/
  unreadable : List Location := []

namespace Tree

/-- The entry at a location. -/
def lookup? (tree : Tree) (location : Location) : Option Entry :=
  if location.isEmpty then some .directory
  else (tree.entries.find? fun entry => entry.1 == location).map (·.2)

/-- Sets the entry at a location. -/
def set (tree : Tree) (location : Location) (entry : Entry) : Tree :=
  if tree.entries.any fun old => old.1 == location then
    { tree with
      entries := tree.entries.map fun old => if old.1 == location then (location, entry) else old }
  else { tree with entries := tree.entries ++ [(location, entry)] }

/-- Replacing the entry at a listed location puts the new one there. -/
theorem find?_replaceAt_self (entries : List (Location × Entry)) (location : Location)
    (entry : Entry) (h : entries.any (fun old => old.1 == location) = true) :
    (entries.map fun old => if old.1 == location then (location, entry) else old).find?
        (fun e => e.1 == location) = some (location, entry) := by
  induction entries with
  | nil => simp at h
  | cons old rest ih =>
    by_cases same : old.1 = location
    · simp [same]
    · simp only [List.any_cons, beq_eq_false_iff_ne.mpr same, Bool.false_or] at h
      simp only [List.map_cons, beq_eq_false_iff_ne.mpr same, Bool.false_eq_true, if_false,
        List.find?_cons, ih h]

/-- Replacing the entry at one location leaves the others alone. -/
theorem find?_replaceAt_of_ne (entries : List (Location × Entry)) {location other : Location}
    (entry : Entry) (h : other ≠ location) :
    (entries.map fun old => if old.1 == location then (location, entry) else old).find?
        (fun e => e.1 == other) = entries.find? fun e => e.1 == other := by
  induction entries with
  | nil => rfl
  | cons old rest ih =>
    by_cases same : old.1 = location
    · have ne : (location == other) = false := beq_eq_false_iff_ne.mpr h.symm
      simp only [List.map_cons, same, BEq.rfl, if_true, List.find?_cons, ne, ih]
    · simp only [List.map_cons, beq_eq_false_iff_ne.mpr same, Bool.false_eq_true, if_false,
        List.find?_cons, ih]

/-- A location that was set has its new entry. -/
theorem lookup?_set_self (tree : Tree) {location : Location} (entry : Entry) (h : location ≠ []) :
    (tree.set location entry).lookup? location = some entry := by
  have inside : location.isEmpty = false := by
    rw [← Bool.not_eq_true, List.isEmpty_iff]; exact h
  by_cases listed : (tree.entries.any fun old => old.1 == location) = true
  · simp only [set, lookup?, listed, if_true, inside, Bool.false_eq_true, if_false,
      find?_replaceAt_self _ _ _ listed, Option.map_some]
  · have absent : tree.entries.find? (fun e => e.1 == location) = none := by
      rw [List.find?_eq_none]
      intro old mem eq
      exact listed (List.any_eq_true.mpr ⟨old, mem, eq⟩)
    simp only [set, lookup?, listed, inside, Bool.false_eq_true, if_false, List.find?_append,
      absent, Option.none_or, List.find?_cons, BEq.rfl, Option.map_some]

/-- Other locations keep their entries. -/
theorem lookup?_set_of_ne (tree : Tree) {location other : Location} (entry : Entry)
    (h : other ≠ location) : (tree.set location entry).lookup? other = tree.lookup? other := by
  by_cases listed : (tree.entries.any fun old => old.1 == location) = true
  · simp only [set, lookup?, listed, if_true, find?_replaceAt_of_ne _ _ h]
  · have ne : (location == other) = false := beq_eq_false_iff_ne.mpr h.symm
    simp only [set, lookup?, listed, Bool.false_eq_true, if_false, List.find?_append,
      List.find?_cons, ne, List.find?_nil, Option.or_none]

/-! ## Following paths -/

/-- Where a path leads. -/
inductive Target where
  /-- To an entry. -/
  | found (location : Location) (entry : Entry)
  /-- To a location in an existing directory where nothing is. -/
  | vacant (location : Location)

/-- How many links may be followed on one path. -/
def linkLimit : Nat := 40

/-- The parts of a path, as names. -/
def partsOf (path : Path) : List String :=
  path.parts.map String.ofList

/-- Follows the parts of a path from a location on. A link at the end is followed if `whole` says
so. There is no target when the path goes through something that is no directory. -/
def walk (tree : Tree) (whole : Bool) (links : Nat) (here : Location) (parts : List String) :
    Option Target :=
  match parts with
  | [] => (tree.lookup? here).map (.found here)
  | part :: rest =>
    if !(tree.lookup? here).any Entry.isDirectory then none
    else if part = "" || part = "." then walk tree whole links here rest
    else if part = ".." then walk tree whole links here.dropLast rest
    else
      let there := here ++ [part]
      match tree.lookup? there with
      | none => if rest.isEmpty then some (.vacant there) else none
      | some (.link target) =>
        if rest.isEmpty && !whole then some (.found there (.link target))
        else
          match links with
          | 0 => none
          | links + 1 =>
            walk tree whole links (if target.isAbsolute then [] else here) (partsOf target ++ rest)
      | some _ => walk tree whole links there rest
termination_by (links, parts.length)

/-- Where the parts of a path lead. The empty path has none that lead away from the working
directory, so names that are joined to it are looked for there. -/
def lead? (tree : Tree) (whole : Bool) (path : Path) : Option Target :=
  tree.walk whole linkLimit (if path.isAbsolute then [] else tree.workingDirectory) (partsOf path)

/-- Where a path leads. By itself the empty path leads nowhere. -/
def target? (tree : Tree) (whole : Bool) (path : Path) : Option Target :=
  if path.text.isEmpty then none else tree.lead? whole path

/-- The entry that a path leads to. -/
def follow? (tree : Tree) (whole : Bool) (path : Path) : Option Entry :=
  match tree.target? whole path with
  | some (.found _ entry) => some entry
  | _ => none

/-! ## Operations -/

/-- All entries below a directory, by the names on the way to them. -/
def below (tree : Tree) (path : Path) : List (List String × Kind) :=
  match tree.target? true path with
  | some (.found base .directory) =>
    tree.entries.filterMap fun (location, entry) =>
      if base.isPrefixOf location && base.length < location.length then
        some (location.drop base.length, entry.kind)
      else none
  | _ => []

/-- The text of a file. -/
def read (tree : Tree) (path : Path) : Except AccessFault String :=
  match tree.target? true path with
  | some (.found location (.file bytes)) =>
    if tree.unreadable.contains location then .error (.refused "Permission denied (os error 13)")
    else
      match String.fromUTF8? bytes with
      | some text => .ok text
      | none => .error .notText
  | some (.found _ _) => .error (.refused "Is a directory (os error 21)")
  | _ => .error (.refused "No such file or directory (os error 2)")

/-- The tree with a file written. -/
def write (tree : Tree) (path : Path) (text : String) : Except AccessFault Tree :=
  match tree.target? true path with
  | some (.found location (.file _)) => .ok (tree.set location (.file text.toUTF8))
  | some (.vacant location) => .ok (tree.set location (.file text.toUTF8))
  | some _ => .error (.refused "Is a directory (os error 21)")
  | none => .error (.refused "No such file or directory (os error 2)")

/-- The path without separators at its end. -/
def trimSeparators (path : Path) : Path :=
  ⟨String.ofList (path.text.toList.reverse.dropWhile (· == '/')).reverse⟩

/-- The tree with a directory at the path, in a directory that is there already. -/
def makeDirectory (tree : Tree) (path : Path) : Except AccessFault Tree :=
  if (trimSeparators path).text.isEmpty then .ok tree
  else
    match tree.target? true path with
    | some (.found _ .directory) => .ok tree
    | _ =>
      match tree.target? false (trimSeparators path) with
      | some (.vacant location) => .ok (tree.set location .directory)
      | some (.found _ _) => .error (.refused "File exists (os error 17)")
      | none => .error (.refused "Not a directory (os error 20)")

/-- The tree with a directory at the path, and with those around it. -/
def makeDirectories (tree : Tree) (path : Path) : Except AccessFault Tree :=
  path.ancestors.reverse.foldlM makeDirectory tree

end Tree

/-- Computations on a file tree. -/
abbrev OnTree := StateM Tree

/-- Changes the tree if nothing is wrong. -/
def OnTree.attempt (change : Tree → Except AccessFault Tree) : OnTree (Except AccessFault Unit) :=
  fun tree =>
    match change tree with
    | .ok changed => (.ok (), changed)
    | .error fault => (.error fault, tree)

instance : Files OnTree where
  kind? path tree := ((tree.follow? true path).map Entry.kind, tree)
  ownKind? path tree := ((tree.follow? false path).map Entry.kind, tree)
  below path tree := (tree.below path, tree)
  read path tree := (tree.read path, tree)
  write path text := OnTree.attempt fun tree => tree.write path text
  makeDirectories path := OnTree.attempt fun tree => tree.makeDirectories path

end CachedRoutes.Disk
