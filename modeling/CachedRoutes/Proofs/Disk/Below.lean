import CachedRoutes.Proofs.Disk.Ancestor
import CachedRoutes.Proofs.Disk.Component
import Mathlib.Data.List.Nodup

/-!
# What is below a directory

The entries of a well-formed tree lie in directories, so that what is listed below a directory is what
stands at the locations that continue its own (`mem_below_iff`), each once (`nodup_below`). A
directory can be entered unless its name is passed over. The directories that can be reached
(`Reaches`) are those that have no such name on the way (`reaches_iff`).
-/

namespace CachedRoutes.Disk.Tree

/-- The text is the name of an entry: it means something in a path and does not climb. -/
def IsName (name : String) : Prop :=
  Path.IsPart name ∧ name ≠ ".."

instance (name : String) : Decidable (IsName name) :=
  inferInstanceAs (Decidable (_ ∧ _))

/-- The entries make up a tree: each location is listed once, locations are made of names, and what
encloses an entry is a directory. -/
structure WellFormed (tree : Tree) : Prop where
  once : (tree.entries.map Prod.fst).Nodup
  named : ∀ entry ∈ tree.entries, entry.1 ≠ [] ∧ ∀ name ∈ entry.1, IsName name
  inside : ∀ entry ∈ tree.entries, tree.lookup? entry.1.dropLast = some .directory

/-- The directory can be reached from the first one through directories that are not passed over. -/
inductive Reaches (tree : Tree) (skipped : List String) (base : Location) : Location → Prop where
  | start : Reaches tree skipped base base
  | enter {directory : Location} {name : String} (h : Reaches tree skipped base directory)
      (hdirectory : tree.lookup? (directory ++ [name]) = some .directory) (hname : name ∉ skipped) :
      Reaches tree skipped base (directory ++ [name])

/-- What is reached from a location lies below it, by names that are not skipped. -/
lemma Reaches.exists_names {tree : Tree} {skipped : List String} {base location : Location}
    (h : tree.Reaches skipped base location) :
    ∃ names, location = base ++ names ∧ ∀ name ∈ names, name ∉ skipped := by
  induction h with
  | start => exact ⟨[], (List.append_nil base).symm, by simp⟩
  | @enter directory name _ _ hname ih =>
    obtain ⟨names, rfl, hnames⟩ := ih
    refine ⟨names ++ [name], List.append_assoc _ _ _, ?_⟩
    intro other hother
    rcases List.mem_append.mp hother with hother | hother
    · exact hnames other hother
    · rwa [List.mem_singleton.mp hother]

namespace WellFormed

variable {tree : Tree} (h : tree.WellFormed)
include h

/-- What is listed stands at its location. -/
lemma lookup?_of_mem {location : Location} {entry : Entry} (hmem : (location, entry) ∈ tree.entries) :
    tree.lookup? location = some entry := by
  have hne : location ≠ [] := (h.named _ hmem).1
  rw [lookup?, if_neg (by simpa using hne)]
  cases hfind : tree.entries.find? fun listed => listed.1 == location with
  | none =>
    rw [List.find?_eq_none] at hfind
    exact absurd (BEq.rfl) (hfind _ hmem)
  | some listed =>
    have hplace : listed.1 = location := by simpa using List.find?_some hfind
    have hsame : listed = (location, entry) :=
      List.inj_on_of_nodup_map h.once (List.mem_of_find?_eq_some hfind) hmem hplace
    rw [hsame]
    rfl

/-- What encloses an entry is a directory. -/
lemma lookup?_parent {directory : Location} {name : String} {entry : Entry}
    (hentry : tree.lookup? (directory ++ [name]) = some entry) :
    tree.lookup? directory = some .directory := by
  have hmem := mem_entries_of_lookup? (by simp) hentry
  simpa using h.inside _ hmem

/-- Locations are made of names. -/
lemma isName {location : Location} {entry : Entry} (hentry : tree.lookup? location = some entry) :
    ∀ name ∈ location, IsName name := by
  by_cases hnil : location = []
  · simp [hnil]
  · exact (h.named _ (mem_entries_of_lookup? hnil hentry)).2

/-- A directory below another one is reached exactly if no name on the way is passed over. -/
lemma reaches_iff {skipped : List String} {base : Location} {names : List String}
    (hdirectory : tree.lookup? (base ++ names) = some .directory) :
    tree.Reaches skipped base (base ++ names) ↔ ∀ name ∈ names, name ∉ skipped := by
  constructor
  · intro hreaches
    obtain ⟨others, hsame, hothers⟩ := hreaches.exists_names
    rwa [List.append_cancel_left hsame]
  · intro hnames
    induction names using List.reverseRecOn with
    | nil =>
      rw [List.append_nil]
      exact .start
    | append_singleton names name ih =>
      rw [← List.append_assoc] at hdirectory ⊢
      refine .enter (ih (h.lookup?_parent hdirectory) ?_) hdirectory (hnames name (by simp))
      intro other hother
      exact hnames other (List.mem_append_left _ hother)

end WellFormed

/-! ## The list of what is below -/

section Below

variable {tree : Tree} {path : Path} {base : Location}

/-- The names that lead from a location to another one below it. -/
def namesBelow? (base location : Location) : Option (List String) :=
  if base.isPrefixOf location && base.length < location.length then
    some (location.drop base.length)
  else none

/-- The names below a location are what its names have to be followed by. -/
lemma namesBelow?_eq_some_iff {location : Location} {names : List String} :
    namesBelow? base location = some names ↔ names ≠ [] ∧ location = base ++ names := by
  unfold namesBelow?
  constructor
  · intro h
    split at h
    · next hbelow =>
      obtain ⟨hstart, hlength⟩ := Bool.and_eq_true_iff.mp hbelow
      obtain ⟨rest, rfl⟩ := List.isPrefixOf_iff_prefix.mp hstart
      rw [List.drop_left] at h
      obtain rfl := Option.some.inj h
      refine ⟨?_, rfl⟩
      rintro rfl
      simp at hlength
    · cases h
  · rintro ⟨hne, rfl⟩
    rw [if_pos, List.drop_left]
    simpa [List.length_pos_iff] using hne

/-- What is listed below a path is what lies below the location that it leads to. -/
lemma below_eq (hpath : tree.directoryAt? path = some base) :
    tree.below path = tree.entries.filterMap fun entry =>
      (namesBelow? base entry.1).map fun names => (names, entry.2.kind) := by
  have htarget : tree.target? true path = some (.found base .directory) :=
    directoryAt?_eq_some.mp hpath
  unfold below
  rw [htarget]
  refine List.filterMap_congr ?_
  intro entry _
  unfold namesBelow?
  dsimp only
  split <;> rfl

/-- What is listed below a directory stands at the locations that continue its own. -/
lemma WellFormed.mem_below_iff (h : tree.WellFormed) (hpath : tree.directoryAt? path = some base)
    {names : List String} {kind : Kind} :
    (names, kind) ∈ tree.below path ↔
      names ≠ [] ∧ ∃ entry, tree.lookup? (base ++ names) = some entry ∧ entry.kind = kind := by
  rw [below_eq hpath, List.mem_filterMap]
  constructor
  · rintro ⟨⟨location, entry⟩, hmem, hsome⟩
    obtain ⟨found, hfound, heq⟩ := Option.map_eq_some_iff.mp hsome
    obtain ⟨rfl, rfl⟩ := Prod.mk.inj heq
    obtain ⟨hne, rfl⟩ := namesBelow?_eq_some_iff.mp hfound
    exact ⟨hne, entry, h.lookup?_of_mem hmem, rfl⟩
  · rintro ⟨hne, entry, hentry, rfl⟩
    refine ⟨(base ++ names, entry), mem_entries_of_lookup? (by simp [hne]) hentry, ?_⟩
    rw [namesBelow?_eq_some_iff.mpr ⟨hne, rfl⟩]
    rfl

/-- Everything below a directory is listed once. -/
lemma WellFormed.nodup_below (h : tree.WellFormed) (hpath : tree.directoryAt? path = some base) :
    ((tree.below path).map Prod.fst).Nodup := by
  have hnames : (tree.below path).map Prod.fst
      = (tree.entries.map Prod.fst).filterMap (namesBelow? base) := by
    rw [below_eq hpath, List.map_filterMap, List.filterMap_map]
    refine List.filterMap_congr ?_
    intro entry _
    rw [Function.comp_apply]
    cases namesBelow? base entry.1 <;> rfl
  rw [hnames]
  refine List.Nodup.filterMap ?_ h.once
  intro a b names ha hb
  rw [(namesBelow?_eq_some_iff.mp ha).2, (namesBelow?_eq_some_iff.mp hb).2]

end Below

end CachedRoutes.Disk.Tree
