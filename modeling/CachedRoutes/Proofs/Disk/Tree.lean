import CachedRoutes.Disk.Tree
import Mathlib.Data.List.Basic

/-!
# Writing into a file tree

Where a path leads depends on the directories and links of a tree, not on the bytes of its files.
So a file that gets new bytes (`set_sameShape`) leaves all paths as they were (`fileAt?_eq`), and
writing through any of them changes the one file that it leads to (`write_eq`). Reading through a
path gives that file's text, unless it may not be read or is no text (`read_eq_ok_iff`).
-/

namespace CachedRoutes.Disk

/-- The entry without the bytes of a file. -/
def Entry.hollow : Entry → Entry
  | file _ => file ByteArray.empty
  | entry => entry

/-- The target without the bytes of a file. -/
def Tree.Target.hollow : Tree.Target → Tree.Target
  | found location entry => found location entry.hollow
  | vacant location => vacant location

/-- The location of a target that is a file. -/
def Tree.Target.file? : Tree.Target → Option Location
  | found location (.file _) => some location
  | _ => none

namespace Tree

/-- Where the file is that a path leads to. -/
def fileAt? (tree : Tree) (path : Path) : Option Location :=
  (tree.target? true path).bind Target.file?

/-- The text of the file at a location, if it may be read and is text. -/
def textAt? (tree : Tree) (location : Location) : Option String :=
  match tree.lookup? location with
  | some (.file bytes) =>
    if tree.unreadable.contains location then none else String.fromUTF8? bytes
  | _ => none

/-- Two trees that differ in the bytes of their files only. -/
structure SameShape (a b : Tree) : Prop where
  workingDirectory_eq : b.workingDirectory = a.workingDirectory
  unreadable_eq : b.unreadable = a.unreadable
  lookup?_hollow : ∀ location,
    (b.lookup? location).map Entry.hollow = (a.lookup? location).map Entry.hollow

variable {a b c : Tree}

/-- A tree has its own shape. -/
lemma SameShape.refl (a : Tree) : SameShape a a := ⟨rfl, rfl, fun _ => rfl⟩

/-- Trees that have the shape of a third have the same shape. -/
lemma SameShape.trans (h : SameShape a b) (h' : SameShape b c) : SameShape a c :=
  ⟨h'.workingDirectory_eq.trans h.workingDirectory_eq, h'.unreadable_eq.trans h.unreadable_eq,
    fun location => (h'.lookup?_hollow location).trans (h.lookup?_hollow location)⟩

/-- A walk arrives at what stands at its end. -/
lemma lookup?_of_walk {tree : Tree} {whole : Bool} {links : Nat} {here location : Location}
    {parts : List String} {entry : Entry}
    (h : tree.walk whole links here parts = some (.found location entry)) :
    tree.lookup? location = some entry := by
  fun_induction walk tree whole links here parts with
  | case1 links here =>
    obtain ⟨found, hfound, htarget⟩ := Option.map_eq_some_iff.mp h
    cases htarget
    exact hfound
  | case2 => cases h
  | case3 links here part rest hdirectory hpart ih => exact ih h
  | case4 links here rest hdirectory hpart ih => exact ih h
  | case5 => cases h
  | case6 => cases h
  | case7 links here part rest hdirectory hpart hup there target hlink hend =>
    obtain ⟨rfl, rfl⟩ := Target.found.inj (Option.some.inj h)
    exact hlink
  | case8 => cases h
  | case9 here part rest hdirectory hpart hup there target hlink hend links ih => exact ih h
  | case10 links here part rest hdirectory hpart hup there found hfound hlink ih => exact ih h

/-- Where a path leads, its parts lead. -/
lemma lead?_of_target? {tree : Tree} {whole : Bool} {path : Path} {target : Target}
    (h : tree.target? whole path = some target) : tree.lead? whole path = some target := by
  unfold target? at h
  split at h
  · cases h
  · exact h

/-- A path that is not empty leads where its parts lead. -/
lemma target?_eq_lead? (tree : Tree) (whole : Bool) {path : Path} (h : path.text ≠ "") :
    tree.target? whole path = tree.lead? whole path := by
  unfold target?
  rw [if_neg (by simpa using h)]

/-- What a path leads to stands at its location. -/
lemma lookup?_of_target? {tree : Tree} {whole : Bool} {path : Path} {location : Location}
    {entry : Entry} (h : tree.target? whole path = some (.found location entry)) :
    tree.lookup? location = some entry :=
  lookup?_of_walk (lead?_of_target? h)

/-- What stands at a location other than the root is listed. -/
lemma mem_entries_of_lookup? {tree : Tree} {location : Location} {entry : Entry}
    (hne : location ≠ []) (h : tree.lookup? location = some entry) :
    (location, entry) ∈ tree.entries := by
  rw [lookup?, if_neg (by simpa using hne)] at h
  obtain ⟨listed, hfind, rfl⟩ := Option.map_eq_some_iff.mp h
  have hplace : listed.1 = location := by simpa using List.find?_some hfind
  rw [← hplace]
  exact List.mem_of_find?_eq_some hfind

/-- Only a link looks like a link. -/
lemma eq_link_of_hollow {entry : Entry} {target : Path}
    (h : entry.hollow = (Entry.link target).hollow) : entry = .link target := by
  cases entry with
  | link other => exact h
  | file bytes => cases h
  | directory => cases h

namespace SameShape

variable (h : SameShape a b) (location : Location)
include h

/-- Trees of one shape have the same directories. -/
lemma any_isDirectory :
    (b.lookup? location).any Entry.isDirectory = (a.lookup? location).any Entry.isDirectory := by
  have hshape := h.lookup?_hollow location
  cases ha : a.lookup? location with
  | none =>
    rw [ha] at hshape
    rw [Option.map_eq_none_iff.mp hshape]
  | some entry =>
    rw [ha] at hshape
    obtain ⟨other, hother, hsame⟩ := Option.map_eq_some_iff.mp hshape
    rw [hother]
    cases entry <;> cases other <;> first | rfl | cases hsame

/-- Trees of one shape have entries at the same locations. -/
lemma lookup?_eq_none {location : Location} (hnone : a.lookup? location = none) :
    b.lookup? location = none := by
  have hshape := h.lookup?_hollow location
  rw [hnone] at hshape
  exact Option.map_eq_none_iff.mp hshape

/-- Trees of one shape have entries that differ in the content of files only. -/
lemma lookup?_eq_some {location : Location} {entry : Entry}
    (hsome : a.lookup? location = some entry) :
    ∃ other, b.lookup? location = some other ∧ other.hollow = entry.hollow := by
  have hshape := h.lookup?_hollow location
  rw [hsome] at hshape
  exact Option.map_eq_some_iff.mp hshape

/-- Trees of one shape have the same links. -/
lemma lookup?_eq_link {location : Location} {target : Path}
    (hlink : a.lookup? location = some (.link target)) : b.lookup? location = some (.link target) := by
  obtain ⟨other, hother, hsame⟩ := h.lookup?_eq_some hlink
  rw [hother, eq_link_of_hollow hsame]

end SameShape

/-- Paths lead to the same places in trees that differ in the bytes of their files only. -/
lemma walk_hollow (h : SameShape a b) (whole : Bool) (links : Nat) (here : Location)
    (parts : List String) :
    (b.walk whole links here parts).map Target.hollow
      = (a.walk whole links here parts).map Target.hollow := by
  fun_induction walk a whole links here parts with
  | case1 links here =>
    rw [walk, Option.map_map, Option.map_map]
    have hshape := congrArg (Option.map (Target.found here)) (h.lookup?_hollow here)
    rw [Option.map_map, Option.map_map] at hshape
    exact hshape
  | case2 links here part rest hdirectory =>
    rw [walk, h.any_isDirectory, if_pos hdirectory]
  | case3 links here part rest hdirectory hpart ih =>
    rw [walk, h.any_isDirectory, if_neg hdirectory, if_pos hpart, ih]
  | case4 links here rest hdirectory hpart ih =>
    rw [walk, h.any_isDirectory, if_neg hdirectory, if_neg hpart, if_pos rfl, ih]
  | case5 links here part rest hdirectory hpart hup there hnone hend =>
    have hother : b.lookup? (here ++ [part]) = none := h.lookup?_eq_none hnone
    rw [walk, h.any_isDirectory, if_neg hdirectory, if_neg hpart, if_neg hup]
    simp only [hother, if_pos hend, there]
  | case6 links here part rest hdirectory hpart hup there hnone hend =>
    have hother : b.lookup? (here ++ [part]) = none := h.lookup?_eq_none hnone
    rw [walk, h.any_isDirectory, if_neg hdirectory, if_neg hpart, if_neg hup]
    simp only [hother, if_neg hend]
  | case7 links here part rest hdirectory hpart hup there target hlink hend =>
    have hother : b.lookup? (here ++ [part]) = some (.link target) := h.lookup?_eq_link hlink
    rw [walk, h.any_isDirectory, if_neg hdirectory, if_neg hpart, if_neg hup]
    simp only [hother, if_pos hend, there]
  | case8 here part rest hdirectory hpart hup there target hlink hend =>
    have hother : b.lookup? (here ++ [part]) = some (.link target) := h.lookup?_eq_link hlink
    rw [walk, h.any_isDirectory, if_neg hdirectory, if_neg hpart, if_neg hup]
    simp only [hother, if_neg hend]
  | case9 here part rest hdirectory hpart hup there target hlink hend links ih =>
    have hother : b.lookup? (here ++ [part]) = some (.link target) := h.lookup?_eq_link hlink
    rw [walk, h.any_isDirectory, if_neg hdirectory, if_neg hpart, if_neg hup]
    simp only [hother, if_neg hend]
    exact ih
  | case10 links here part rest hdirectory hpart hup there found hlink hfound ih =>
    obtain ⟨other, hother, hsame⟩ := h.lookup?_eq_some hfound
    rw [walk, h.any_isDirectory, if_neg hdirectory, if_neg hpart, if_neg hup]
    cases other with
    | file bytes => simpa only [show b.lookup? (here ++ [part]) = _ from hother] using ih
    | directory => simpa only [show b.lookup? (here ++ [part]) = _ from hother] using ih
    | link target => exact absurd (eq_link_of_hollow hsame.symm) (hlink target)

/-- Where a file is does not depend on its content. -/
lemma Target.file?_hollow (target : Target) : target.hollow.file? = target.file? := by
  cases target with
  | vacant location => rfl
  | found location entry => cases entry <;> rfl

/-- Files keep their places in trees that differ in the bytes of their files only. -/
lemma fileAt?_eq (h : SameShape a b) (path : Path) : b.fileAt? path = a.fileAt? path := by
  have hfile : ∀ target? : Option Target,
      target?.bind Target.file? = (target?.map Target.hollow).bind Target.file? := by
    intro target?
    cases target? with
    | none => rfl
    | some target => exact (Target.file?_hollow target).symm
  unfold fileAt? target? lead?
  split
  · rfl
  · rw [hfile, h.workingDirectory_eq, walk_hollow h, ← hfile]

/-- The location of a file has a file on it. -/
lemma fileAt?_eq_some {tree : Tree} {path : Path} {location : Location}
    (h : tree.fileAt? path = some location) :
    ∃ bytes, tree.target? true path = some (.found location (.file bytes)) ∧
      tree.lookup? location = some (.file bytes) := by
  obtain ⟨target, htarget, hfile⟩ := Option.bind_eq_some_iff.mp h
  cases target with
  | vacant other => cases hfile
  | found other entry =>
    cases entry with
    | file bytes =>
      obtain rfl := Option.some.inj hfile
      exact ⟨bytes, htarget, lookup?_of_target? htarget⟩
    | directory => cases hfile
    | link target => cases hfile

/-! ## Reading and writing -/

/-- Reading through a path gives the text of the file that it leads to. -/
lemma read_eq_ok_iff {tree : Tree} {path : Path} {text : String} :
    tree.read path = .ok text ↔
      ∃ location, tree.fileAt? path = some location ∧ tree.textAt? location = some text := by
  constructor
  · intro h
    unfold read at h
    split at h
    · rename_i location bytes htarget
      refine ⟨location, by rw [fileAt?, htarget]; rfl, ?_⟩
      rw [textAt?, lookup?_of_target? htarget]
      split at h
      · cases h
      · rename_i hreadable
        dsimp only
        rw [if_neg hreadable]
        split at h
        · rename_i found htext
          obtain rfl := Except.ok.inj h
          exact htext
        · cases h
    · cases h
    · cases h
  · rintro ⟨location, hfile, htext⟩
    obtain ⟨bytes, htarget, hbytes⟩ := fileAt?_eq_some hfile
    rw [textAt?, hbytes] at htext
    dsimp only at htext
    unfold read
    rw [htarget]
    dsimp only
    split at htext
    · cases htext
    · rename_i hreadable
      rw [if_neg hreadable, htext]

/-- The root is a directory, whatever the tree. -/
lemma ne_nil_of_file {tree : Tree} {location : Location} {bytes : ByteArray}
    (h : tree.lookup? location = some (.file bytes)) : location ≠ [] := by
  rintro rfl
  cases h

/-- A file that gets new bytes keeps the shape of the tree. -/
lemma set_sameShape {tree : Tree} {location : Location} {bytes : ByteArray}
    (h : tree.lookup? location = some (.file bytes)) (new : ByteArray) :
    SameShape tree (tree.set location (.file new)) := by
  refine ⟨by unfold set; split <;> rfl, by unfold set; split <;> rfl, ?_⟩
  intro other
  by_cases hsame : other = location
  · rw [hsame, lookup?_set_self tree _ (ne_nil_of_file h), h]
    rfl
  · rw [lookup?_set_of_ne tree _ hsame]

/-- Writing through a path changes the file that it leads to. -/
lemma write_eq {tree : Tree} {path : Path} {location : Location}
    (h : tree.fileAt? path = some location) (text : String) :
    tree.write path text = .ok (tree.set location (.file text.toUTF8)) := by
  obtain ⟨bytes, htarget, -⟩ := fileAt?_eq_some h
  unfold write
  rw [htarget]

end Tree

end CachedRoutes.Disk
