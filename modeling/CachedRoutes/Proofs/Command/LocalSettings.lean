import CachedRoutes.Command.Run
import CachedRoutes.Proofs.Command.Effect
import CachedRoutes.Proofs.Disk.Ancestor
import CachedRoutes.Proofs.Lists

/-!
# The project's settings file

The project's settings file is meant to be the nearest one in the directory that the root leads to
and in the directories around it. It is looked for along the spelling of the root instead: in the
directories that the beginnings of the spelling lead to, the last of a relative one being the working
directory (`searched`). The first of them that holds a settings file decides (`localSettings?_eq`).

* **Which searches agree** (`eraseDups_eq_iff`): those that meet the same directories for the first
  time in the same order.
* **What the search depends on** (`Refits.searched_eq`): the directories and links of a tree, not its
  settings files, which may be anywhere (`withSettings`).
* **When the search is right** (`localSettings_nearest_iff`): when it meets exactly the directory of
  the root and those around it. A direct spelling does so when it starts at the root of the tree.
-/

namespace CachedRoutes

namespace Disk

namespace Tree

/-! ## Settings files of a tree -/

/-- Where a directory has its settings file. -/
def settingsIn (directory : Location) : Location :=
  directory ++ [Command.Init.fileName]

/-- The name of settings files is not empty. -/
lemma fileName_ne_nil : Command.Init.fileName.toList ≠ [] := by decide

/-- The name of settings files is one name. -/
lemma separator_not_mem_fileName : '/' ∉ Command.Init.fileName.toList := by decide

/-- Does the directory hold a settings file? -/
def holdsSettings (tree : Tree) (directory : Location) : Bool :=
  (tree.lookup? (settingsIn directory)).map Entry.kind == some .file

/-- All settings files are files of their own, not links or directories. -/
def RegularSettings (tree : Tree) : Prop :=
  ∀ directory entry, tree.lookup? (settingsIn directory) = some entry → entry.kind = .file

/-- Settings are regular if all entries with the name of settings files are files. -/
lemma regularSettings_of_entries {tree : Tree}
    (h : ∀ entry ∈ tree.entries,
      entry.1.getLast? = some Command.Init.fileName → entry.2.kind = .file) :
    tree.RegularSettings := by
  intro directory entry hentry
  apply h _ (mem_entries_of_lookup? (List.append_ne_nil_of_right_ne_nil _ (by simp)) hentry)
  exact List.getLast?_concat

/-- The nearest settings file in a directory or one around it. -/
def nearestSettings? (tree : Tree) (directory : Location) : Option Location :=
  ((around directory).find? tree.holdsSettings).map settingsIn

/-- The directories in which names below the beginnings of a spelling are looked for. -/
def searched (tree : Tree) (root : Path) : List Location :=
  root.ancestors.filterMap tree.baseAt?

/-- In a directory without an entry for them, a walk to the settings ends at a vacant place. -/
lemma walk_fileName_of_none {tree : Tree} {place : Location} (links : Nat)
    (hplace : tree.lookup? place = some .directory)
    (hentry : tree.lookup? (settingsIn place) = none) :
    tree.walk true links place [Command.Init.fileName] = some (.vacant (settingsIn place)) := by
  rw [walk, hplace, if_neg (by decide), if_neg (by decide), if_neg (by decide)]
  simp only [show tree.lookup? (place ++ [Command.Init.fileName]) = none from hentry]
  rfl

/-- The settings file below a path is the one of the directory in which it is looked for. -/
lemma fileAt?_join {tree : Tree} (hregular : tree.RegularSettings) (path : Path) :
    tree.fileAt? (path.join ⟨Command.Init.fileName⟩)
      = ((tree.baseAt? path).filter tree.holdsSettings).map settingsIn := by
  obtain ⟨left, hleft⟩ := tree.exists_target?_join path fileName_ne_nil separator_not_mem_fileName
  unfold fileAt? baseAt?
  rw [hleft]
  cases htarget : tree.lead? true path with
  | none => rfl
  | some target =>
    cases target with
    | vacant place => rfl
    | found place entry =>
      have hplace : tree.lookup? place = some entry := lookup?_of_walk htarget
      cases entry with
      | file bytes => simp [Target.place?, Target.directory?, walk, hplace, Entry.isDirectory]
      | link link => simp [Target.place?, Target.directory?, walk, hplace, Entry.isDirectory]
      | directory =>
        cases hentry : tree.lookup? (settingsIn place) with
        | none =>
          have hwalk := walk_fileName_of_none left hplace hentry
          have hholds : tree.holdsSettings place = false := by simp [holdsSettings, hentry]
          simp [Target.place?, Target.directory?, Target.file?, hwalk, Option.filter, hholds]
        | some found =>
          cases found with
          | file bytes =>
            have hwalk : tree.walk true left place [Command.Init.fileName]
                = some (.found (settingsIn place) (.file bytes)) :=
              walk_name left (by decide) (by decide) hplace hentry (by simp [Entry.kind])
            have hholds : tree.holdsSettings place = true := by
              simp [holdsSettings, hentry, Entry.kind]
            simp [Target.place?, Target.directory?, Target.file?, hwalk, Option.filter, hholds]
          | directory => cases hregular _ _ hentry
          | link link => cases hregular _ _ hentry

/-! ## Trees with the same directories -/

/-- The trees differ in nothing but their settings files. -/
structure Refits (a b : Tree) : Prop where
  workingDirectory_eq : b.workingDirectory = a.workingDirectory
  lookup?_eq : ∀ directory name, name ≠ Command.Init.fileName →
    b.lookup? (directory ++ [name]) = a.lookup? (directory ++ [name])
  regular : b.RegularSettings

variable {a b : Tree}

/-- Trees that differ in their settings files only do so both ways. -/
lemma Refits.symm (h : Refits a b) (ha : a.RegularSettings) : Refits b a :=
  ⟨h.workingDirectory_eq.symm, fun directory name hname => (h.lookup?_eq directory name hname).symm,
    ha⟩

/-- Settings files are no directories, so the directories stay. -/
lemma Refits.lookup?_directory (h : Refits a b) (ha : a.RegularSettings) {location : Location}
    (hdirectory : a.lookup? location = some .directory) :
    b.lookup? location = some .directory := by
  rcases List.eq_nil_or_concat location with rfl | ⟨parent, name, rfl⟩
  · rfl
  · rw [List.concat_eq_append] at hdirectory ⊢
    have hname : name ≠ Command.Init.fileName := by
      rintro rfl
      cases ha _ _ hdirectory
    rw [h.lookup?_eq _ _ hname, hdirectory]

/-- What is a directory in one of the trees is one in the other, so no walk is blocked. -/
lemma Refits.not_blocked (h : Refits a b) (ha : a.RegularSettings) {here : Location}
    (hdirectory : ¬(!(a.lookup? here).any Entry.isDirectory) = true) :
    ¬(!(b.lookup? here).any Entry.isDirectory) = true := by
  rw [Bool.not_eq_true', Bool.not_eq_false, any_isDirectory_iff] at hdirectory ⊢
  exact h.lookup?_directory ha hdirectory

/-- A walk to a directory passes no settings file, so it goes the same way in both trees. -/
lemma Refits.walk (h : Refits a b) (ha : a.RegularSettings) {links : Nat}
    {here location : Location} {parts : List String}
    (hwalk : a.walk true links here parts = some (.found location .directory)) :
    b.walk true links here parts = some (.found location .directory) := by
  fun_induction Tree.walk a true links here parts with
  | case1 links here =>
    obtain ⟨entry, hentry, htarget⟩ := Option.map_eq_some_iff.mp hwalk
    cases htarget
    rw [Tree.walk, h.lookup?_directory ha hentry]
    rfl
  | case2 => cases hwalk
  | case3 links here part rest hdirectory hpart ih =>
    rw [Tree.walk, if_neg (h.not_blocked ha hdirectory), if_pos hpart]
    exact ih hwalk
  | case4 links here rest hdirectory hpart ih =>
    rw [Tree.walk, if_neg (h.not_blocked ha hdirectory), if_neg hpart, if_pos rfl]
    exact ih hwalk
  | case5 => cases hwalk
  | case6 => cases hwalk
  | case7 links here part rest hdirectory hpart hup there target hlink hend => simp at hend
  | case8 => cases hwalk
  | case9 here part rest hdirectory hpart hup there target hlink hend links ih =>
    have hname : part ≠ Command.Init.fileName := by
      rintro rfl
      cases ha _ _ hlink
    have hthere : b.lookup? (here ++ [part]) = _ := (h.lookup?_eq here part hname).trans hlink
    rw [Tree.walk, if_neg (h.not_blocked ha hdirectory), if_neg hpart, if_neg hup]
    simp only [hthere, if_neg hend]
    exact ih hwalk
  | case10 links here part rest hdirectory hpart hup there found hlink hfound ih =>
    have hdown : a.lookup? there = some .directory := lookup?_start_of_walk hwalk
    have hname : part ≠ Command.Init.fileName := by
      rintro rfl
      cases ha _ _ hdown
    have hthere : b.lookup? (here ++ [part]) = _ := (h.lookup?_eq here part hname).trans hdown
    rw [Tree.walk, if_neg (h.not_blocked ha hdirectory), if_neg hpart, if_neg hup]
    simp only [hthere]
    exact ih hwalk

/-- The same directories are searched in both trees. -/
lemma Refits.searched_eq (h : Refits a b) (ha : a.RegularSettings) (root : Path) :
    b.searched root = a.searched root := by
  unfold searched
  refine List.filterMap_congr ?_
  intro path _
  have hstart : b.startOf path = a.startOf path := by
    unfold startOf
    rw [h.workingDirectory_eq]
  apply Option.ext
  intro location
  rw [baseAt?_eq_some, baseAt?_eq_some, hstart]
  exact ⟨(h.symm ha).walk h.regular, h.walk ha⟩

/-- The tree with settings files in the given directories only. -/
def withSettings (tree : Tree) (held : List Location) : Tree :=
  { tree with
    entries := tree.entries.filter (fun entry => entry.1.getLast? ≠ some Command.Init.fileName)
      ++ held.map fun directory => (settingsIn directory, .file ByteArray.empty) }

/-- Settings are found exactly where they were put. -/
lemma lookup?_withSettings (tree : Tree) (held : List Location) (directory : Location) :
    (tree.withSettings held).lookup? (settingsIn directory)
      = if directory ∈ held then some (.file ByteArray.empty) else none := by
  have hkept : (tree.entries.filter fun entry =>
      entry.1.getLast? ≠ some Command.Init.fileName).find?
        (fun entry => entry.1 == settingsIn directory) = none := by
    rw [List.find?_eq_none]
    intro entry hentry hsame
    have hother := (List.mem_filter.mp hentry).2
    simp [beq_iff_eq.mp hsame, settingsIn] at hother
  have hheld : (held.map fun other => (settingsIn other, Entry.file ByteArray.empty)).find?
        (fun entry => entry.1 == settingsIn directory)
      = if directory ∈ held then some (settingsIn directory, .file ByteArray.empty) else none := by
    induction held with
    | nil => rfl
    | cons other held ih =>
      by_cases hsame : directory = other
      · simp [hsame]
      · have hplace : settingsIn other ≠ settingsIn directory := by
          simpa [settingsIn] using Ne.symm hsame
        simp [hplace, hsame, ih]
  have hne : (settingsIn directory).isEmpty = false := by simp [settingsIn]
  simp only [lookup?, withSettings, hne, List.find?_append, hkept, hheld, Bool.false_eq_true, if_false,
    Option.none_or]
  split <;> rfl

/-- All other entries are what they were. -/
lemma lookup?_withSettings_of_ne (tree : Tree) (held : List Location) (directory : Location)
    {name : String} (hname : name ≠ Command.Init.fileName) :
    (tree.withSettings held).lookup? (directory ++ [name]) = tree.lookup? (directory ++ [name]) := by
  have hkept : (tree.entries.filter fun entry =>
      entry.1.getLast? ≠ some Command.Init.fileName).find?
        (fun entry => entry.1 == directory ++ [name])
      = tree.entries.find? fun entry => entry.1 == directory ++ [name] := by
    rw [List.find?_filter]
    refine List.find?_congr ?_
    intro entry _
    by_cases hsame : entry.1 = directory ++ [name]
    · simp [hsame, hname]
    · simp [hsame]
  have hheld : (held.map fun other => (settingsIn other, Entry.file ByteArray.empty)).find?
        (fun entry => entry.1 == directory ++ [name]) = none := by
    rw [List.find?_eq_none]
    intro entry hentry hsame
    obtain ⟨other, -, rfl⟩ := List.mem_map.mp hentry
    have hlast := congrArg List.getLast? (beq_iff_eq.mp hsame)
    simp [settingsIn] at hlast
    exact hname hlast.symm
  have hne : (directory ++ [name]).isEmpty = false := by simp
  simp only [lookup?, withSettings, hne, List.find?_append, hkept, hheld, Bool.false_eq_true, if_false,
    Option.or_none]

/-- A directory holds settings exactly if they were put there. -/
lemma holdsSettings_withSettings (tree : Tree) (held : List Location) (directory : Location) :
    (tree.withSettings held).holdsSettings directory = decide (directory ∈ held) := by
  unfold holdsSettings
  rw [lookup?_withSettings]
  split <;> simp_all [Entry.kind]

/-- Putting settings into directories changes nothing else. -/
lemma refits_withSettings (tree : Tree) (held : List Location) :
    Refits tree (tree.withSettings held) where
  workingDirectory_eq := rfl
  lookup?_eq directory name hname := lookup?_withSettings_of_ne tree held directory hname
  regular directory entry hentry := by
    rw [lookup?_withSettings] at hentry
    split at hentry
    · obtain rfl := Option.some.inj hentry
      rfl
    · cases hentry

end Tree

end Disk

/-! ## The search -/

namespace Command

open Disk (Tree OnTree Location Entry)
open Disk.Tree (settingsIn around)

/-- A path leads to a file exactly if the file has a location. -/
lemma isFile_eq_isSome (tree : Tree) (path : Path) :
    ((tree.follow? true path).map Entry.kind == some .file) = (tree.fileAt? path).isSome := by
  unfold Tree.follow? Tree.fileAt?
  cases tree.target? true path with
  | none => rfl
  | some target =>
    cases target with
    | vacant location => rfl
    | found location entry => cases entry <;> rfl

/-- The first path of a list that leads to a file is found. -/
lemma run_firstFile? (tree : Tree) (paths : List Path) :
    (Files.firstFile? paths : OnTree (Option Path)).run tree
      = (paths.find? fun path => (tree.fileAt? path).isSome, tree) := by
  induction paths with
  | nil => rfl
  | cons path paths ih =>
    rw [List.find?_cons, ← isFile_eq_isSome]
    show StateT.run (if (tree.follow? true path).map Entry.kind == some .file then pure (some path)
      else Files.firstFile? paths : OnTree (Option Path)) tree = _
    cases (tree.follow? true path).map Entry.kind == some .file with
    | true => rfl
    | false => exact ih

/-- Carrying out `apply` at a root, with the settings of the project. -/
def applyAt (globals : Globals) (options : ApplyOptions) (root : Path) : Invocation where
  globals := { globals with noLocal := false }
  action := .apply { options with root := some root }

/-- The project's settings file that a command line finds on a tree. -/
def localSettings? (environment : Environment) (invocation : Invocation) (tree : Tree) :
    Option Location :=
  match (((findLocal environment invocation : Session OnTree _).run.run []).run tree).1.1 with
  | .ok found => found.bind tree.fileAt?
  | .error _ => none

variable (environment : Environment) (globals : Globals) (options : ApplyOptions)

/-- The first of the candidates that is a file is found. -/
lemma gives_findLocal (root : Path) (tree : Tree) :
    Session.Gives (findLocal environment (applyAt globals options root)) tree
      (.ok ((localCandidates root).find? fun path => (tree.fileAt? path).isSome)) tree := by
  have hfirst := @Session.gives_lift _ tree
    (Files.firstFile? (localCandidates root) : OnTree (Option Path))
  rw [run_firstFile?] at hfirst
  unfold findLocal
  rw [if_neg (show ¬(applyAt globals options root).globals.noLocal = true from Bool.false_ne_true)]
  refine hfirst.bind ?_
  cases (localCandidates root).find? fun path => (tree.fileAt? path).isSome with
  | none => exact Session.gives_pure _
  | some path => exact (Session.gives_write _).bind (Session.gives_pure _)

/-- The first of the directories along the spelling that holds a settings file decides. -/
lemma localSettings?_eq {tree : Tree} (hregular : tree.RegularSettings) (root : Path) :
    localSettings? environment (applyAt globals options root) tree
      = ((tree.searched root).find? tree.holdsSettings).map settingsIn := by
  obtain ⟨lines, hrun⟩ := gives_findLocal environment globals options root tree []
  have hcandidate : ((fun path => (tree.fileAt? path).isSome) ∘ fun directory : Path =>
      directory.join ⟨Init.fileName⟩) = fun path => (tree.baseAt? path).any tree.holdsSettings := by
    funext path
    rw [Function.comp_apply, Tree.fileAt?_join hregular, Option.isSome_map, Option.isSome_filter]
  unfold localSettings?
  rw [hrun]
  show ((localCandidates root).find? _).bind _ = _
  rw [localCandidates, List.find?_map, hcandidate, Tree.searched, List.find?_filterMap]
  cases hfind : root.ancestors.find? fun path => (tree.baseAt? path).any tree.holdsSettings with
  | none => rfl
  | some path =>
    have hany : (tree.baseAt? path).any tree.holdsSettings = true := by
      simpa using List.find?_some hfind
    obtain ⟨directory, hdirectory, hholds⟩ := (Option.any_eq_true _ _).mp hany
    show tree.fileAt? (path.join ⟨Init.fileName⟩) = (tree.baseAt? path).map settingsIn
    rw [Tree.fileAt?_join hregular, hdirectory, Option.filter_some_pos hholds]

/-! ## When the search is right -/

/-- In trees with the same directories, searches along the lists agree if and only if the lists,
repetitions left out, are the same. -/
lemma forall_refits_find?_iff (tree : Tree) (xs ys : List Location) :
    (∀ other, tree.Refits other →
        (xs.find? other.holdsSettings).map settingsIn
          = (ys.find? other.holdsSettings).map settingsIn) ↔
      xs.eraseDups = ys.eraseDups := by
  constructor
  · intro h
    rw [eraseDups_eq_iff]
    intro held
    have hfind := h _ (tree.refits_withSettings held)
    have hheld : (tree.withSettings held).holdsSettings = fun directory => decide (directory ∈ held) :=
      funext (tree.holdsSettings_withSettings held)
    rw [hheld] at hfind
    refine Option.map_injective ?_ hfind
    exact fun a b hab => List.append_cancel_right hab
  · intro h other _
    rw [← find?_eraseDups, h, find?_eraseDups]

/-- The directories along a direct spelling are named by its beginnings. -/
lemma searched_of_direct {tree : Tree} {root : Path} {location : Location}
    (hroot : tree.baseAt? root = some location) (hdirect : tree.Direct root) :
    tree.searched root = (root.ancestors.map fun ancestor => Tree.names (Tree.partsOf ancestor)).map
      (tree.startOf root ++ ·) := by
  rw [Tree.searched, List.map_map, ← List.filterMap_eq_map]
  exact List.filterMap_congr fun ancestor => Tree.baseAt?_of_direct hdirect hroot

/-- Along a direct spelling, the search goes from the end of the path up to its start. -/
lemma find?_searched_of_direct {tree : Tree} {root : Path} {location : Location}
    (hroot : tree.baseAt? root = some location) (hdirect : tree.Direct root)
    (p : Location → Bool) :
    (tree.searched root).find? p
      = ((around (Tree.names (Tree.partsOf root))).map (tree.startOf root ++ ·)).find? p := by
  have hnames : Tree.names (Tree.partsOf root)
      = Tree.namesBack (Path.settle root.isAbsolute root.parts.reverse) := by
    rw [Tree.namesBack_settle, Tree.namesBack, List.reverse_reverse]
    rfl
  rw [searched_of_direct hroot hdirect, Path.ancestors, List.map_cons, hnames, List.find?_map,
    Tree.find?_names_enclosing root.separable_settle, List.find?_map]

/-- Along a direct spelling, the search goes up to the start of the path and no further. -/
lemma eraseDups_searched_of_direct {tree : Tree} {root : Path} {location : Location}
    (hroot : tree.baseAt? root = some location) (hdirect : tree.Direct root) :
    (tree.searched root).eraseDups
      = (around location).filter fun directory => (tree.startOf root).isPrefixOf directory := by
  have hlocation : location = tree.startOf root ++ Tree.names (Tree.partsOf root) :=
    Tree.eq_append_names (Tree.baseAt?_eq_some.mp hroot) hdirect.climbs_nowhere
      hdirect.meets_no_link
  rw [← eraseDups_of_nodup ((Tree.nodup_around location).filter _), eraseDups_eq_iff]
  intro held
  rw [find?_searched_of_direct hroot hdirect, hlocation, Tree.filter_around_append]

/-- That is up to the root of the tree if and only if the path starts there. -/
lemma filter_around_eq_self_iff (tree : Tree) (root : Path) (location : Location) :
    (around location).filter (fun directory => (tree.startOf root).isPrefixOf directory)
        = around location ↔
      root.isAbsolute = true ∨ tree.workingDirectory = [] := by
  have hstart : tree.startOf root = [] ↔ root.isAbsolute = true ∨ tree.workingDirectory = [] := by
    unfold Tree.startOf
    split <;> simp_all
  rw [← hstart, List.filter_eq_self]
  constructor
  · intro h
    have hnil := h [] (List.mem_reverse.mpr ((List.mem_inits _ _).mpr List.nil_prefix))
    exact List.prefix_nil.mp (List.isPrefixOf_iff_prefix.mp hnil)
  · intro h directory _
    rw [h]
    rfl

/-- The settings file of an `apply` is that of the first directory along the spelling of its root
that holds one. Whatever settings files there are in a tree with given directories, this is the
nearest one in the directory of the root and those around it if and only if the spelling meets
exactly these, in their order; two spellings give the same file if and only if they meet the same
directories for the first time in the same order. A direct spelling meets those between the directory
of the root and the start of the spelling, so it is right if and only if it starts at the root of the
tree: it is absolute, or that is the working directory. -/
theorem localSettings_nearest_iff {tree : Tree} {root : Path} {location : Location}
    (hregular : tree.RegularSettings) (hroot : tree.baseAt? root = some location) :
    (localSettings? environment (applyAt globals options root) tree
      = ((tree.searched root).find? tree.holdsSettings).map settingsIn) ∧
    ((∀ other, tree.Refits other →
        localSettings? environment (applyAt globals options root) other
          = other.nearestSettings? location) ↔
      (tree.searched root).eraseDups = around location) ∧
    (∀ spelling, (∀ other, tree.Refits other →
        localSettings? environment (applyAt globals options root) other
          = localSettings? environment (applyAt globals options spelling) other) ↔
      (tree.searched root).eraseDups = (tree.searched spelling).eraseDups) ∧
    (tree.Direct root →
      (tree.searched root).eraseDups
          = ((around location).filter fun directory => (tree.startOf root).isPrefixOf directory) ∧
        ((tree.searched root).eraseDups = around location ↔
          root.isAbsolute = true ∨ tree.workingDirectory = [])) := by
  have hfound (path : Path) {other : Tree} (hother : tree.Refits other) :
      localSettings? environment (applyAt globals options path) other
        = ((tree.searched path).find? other.holdsSettings).map settingsIn := by
    rw [localSettings?_eq environment globals options hother.regular,
      hother.searched_eq hregular]
  refine ⟨localSettings?_eq environment globals options hregular root, ?_, ?_, ?_⟩
  · rw [← eraseDups_of_nodup (Tree.nodup_around location), ← forall_refits_find?_iff tree]
    apply forall₂_congr
    intro other hother
    rw [hfound root hother]
    rfl
  · intro spelling
    rw [← forall_refits_find?_iff tree]
    apply forall₂_congr
    intro other hother
    rw [hfound root hother, hfound spelling hother]
  · intro hdirect
    have hmet := eraseDups_searched_of_direct hroot hdirect
    refine ⟨hmet, ?_⟩
    rw [hmet]
    exact filter_around_eq_self_iff tree root location

/-- What a command line finds that starts with nothing set. -/
def bareEnvironment : Environment := ⟨⟨"/p/app"⟩, [], ⟨0, 0⟩⟩

/-- A project with a settings file, seen from the application inside it. -/
def projectTree : Tree where
  entries := [(["p"], .directory), (["p", "app"], .directory),
    (["p", Init.fileName], .file ByteArray.empty)]
  workingDirectory := ["p", "app"]

/-- The settings of the project are regular. -/
lemma projectTree_regular : projectTree.RegularSettings :=
  Tree.regularSettings_of_entries (by decide)

/-- The dot leads to the directory of the app. -/
lemma projectTree_baseAt?_dot : projectTree.baseAt? ⟨"."⟩ = some ["p", "app"] := by
  have hparts : Tree.partsOf ⟨"."⟩ = ["."] := by decide
  have hstart : projectTree.startOf ⟨"."⟩ = ["p", "app"] := by decide
  have happ : projectTree.lookup? ["p", "app"] = some .directory := rfl
  rw [Tree.baseAt?_eq_some, hparts, hstart]
  simp [Tree.walk, happ, Entry.isDirectory]

/-- The absolute path leads to the directory of the app. -/
lemma projectTree_baseAt?_absolute :
    projectTree.baseAt? ⟨"/p/app"⟩ = some ["p", "app"] := by
  have hparts : Tree.partsOf ⟨"/p/app"⟩ = ["p", "app"] := by decide
  have hstart : projectTree.startOf ⟨"/p/app"⟩ = [] := by decide
  have hroot : projectTree.lookup? [] = some .directory := rfl
  have hproject : projectTree.lookup? ["p"] = some .directory := rfl
  have happ : projectTree.lookup? ["p", "app"] = some .directory := rfl
  rw [Tree.baseAt?_eq_some, hparts, hstart]
  simp [Tree.walk, hroot, hproject, happ, Entry.isDirectory]

/-- In the project, all paths without steps up are direct. -/
lemma projectTree_direct {root : Path} (h : ".." ∉ Tree.partsOf root) :
    projectTree.Direct root := by
  refine ⟨h, ?_⟩
  intro front _ target hlink
  have hne : projectTree.startOf root ++ front ≠ [] := by
    intro hnil
    rw [hnil] at hlink
    cases hlink
  have hlisted : ∀ entry ∈ projectTree.entries, entry.2.kind ≠ .link := by decide
  exact hlisted _ (Tree.mem_entries_of_lookup? hne hlink) rfl

/-- From the application's directory, spelled out, the nearest settings are taken, whichever
directories hold some. -/
theorem localSettings_nearest_app :
    (projectTree.RegularSettings ∧ projectTree.baseAt? ⟨"/p/app"⟩ = some ["p", "app"]) ∧
      ∀ other, projectTree.Refits other →
        localSettings? bareEnvironment (applyAt {} {} ⟨"/p/app"⟩) other
          = other.nearestSettings? ["p", "app"] := by
  refine ⟨⟨projectTree_regular, projectTree_baseAt?_absolute⟩, ?_⟩
  obtain ⟨-, hnearest, -, hdirect⟩ := localSettings_nearest_iff bareEnvironment {} {}
    projectTree_regular projectTree_baseAt?_absolute
  exact hnearest.mpr ((hdirect (projectTree_direct (by decide))).2.mpr (Or.inl rfl))

/-- The application's directory, spelled from within, is searched alone. -/
theorem localSettings_missed_from_within :
    projectTree.directoryAt? ⟨"."⟩ = projectTree.directoryAt? ⟨"/p/app"⟩ ∧
      projectTree.nearestSettings? ["p", "app"] = some ["p", Init.fileName] ∧
      localSettings? bareEnvironment (applyAt {} {} ⟨"/p/app"⟩) projectTree
        = some ["p", Init.fileName] ∧
      localSettings? bareEnvironment (applyAt {} {} ⟨"."⟩) projectTree = none := by
  refine ⟨?_, by rfl, ?_, ?_⟩
  · rw [Tree.directoryAt?_eq_baseAt? _ (by decide), Tree.directoryAt?_eq_baseAt? _ (by decide),
      projectTree_baseAt?_dot, projectTree_baseAt?_absolute]
  · rw [localSettings?_eq _ _ _ projectTree_regular, find?_searched_of_direct
      projectTree_baseAt?_absolute (projectTree_direct (by decide))]
    rfl
  · rw [localSettings?_eq _ _ _ projectTree_regular, find?_searched_of_direct
      projectTree_baseAt?_dot (projectTree_direct (by decide))]
    rfl

end Command

end CachedRoutes
