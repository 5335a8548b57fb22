import CachedRoutes.Proofs.Command.Effect
import CachedRoutes.Proofs.Discovery.Order
import CachedRoutes.Proofs.Disk.Below

/-!
# Which route files are found

* **Paths** (`target?_pathBelow`): the path of an entry below a directory, put together of the names
  on the way, leads to that entry.
* **Files** (`finds_routeFiles`): of what is listed below the directory of routes, those are taken that
  can be reached without entering a directory that is passed over, each once and in ascending order.
* **The directory of routes** (`discover_finds_iff`): it is passed over by the last name in its
  spelling. That need not be its own name: the spelling may end in a link, or in no name at all.
-/

namespace CachedRoutes.Discovery

open Disk (Tree OnTree Location Entry)

/-! ## Paths -/

section Paths

variable {tree : Tree} {directory : Path} {base : Location} {names : List String}

/-- A further name is joined to the path. -/
lemma pathBelow_append_singleton (directory : Path) (names : List String) (name : String) :
    pathBelow directory (names ++ [name]) = (pathBelow directory names).join ⟨name⟩ := by
  simp [pathBelow]

/-- A name is one component. -/
lemma components_name {name : String} (h : Tree.IsName name) :
    (Path.mk name).lead = [] ∧ (Path.mk name).components = [.name name] := by
  obtain ⟨hpart, hup⟩ := h
  obtain ⟨hne, hdot⟩ := hpart.toList_ne
  obtain ⟨hrelative, hparts⟩ := Path.parts_name hne hpart.2.2
  have hlead : (Path.mk name).lead = [] := by simp [Path.lead, hrelative, hparts, hdot]
  have hclimb : name.toList ≠ ['.', '.'] := fun hsame => hup (String.toList_inj.mp hsame)
  refine ⟨hlead, ?_⟩
  rw [Path.components_eq, hlead, hparts]
  simp [Path.component?, hne, hdot, hclimb]

/-- The components of a path below a directory are those of the directory, and the names. -/
lemma components_pathBelow (directory : Path) (h : ∀ name ∈ names, Tree.IsName name) :
    (pathBelow directory names).components = directory.components ++ names.map .name := by
  induction names using List.reverseRecOn with
  | nil => exact (List.append_nil _).symm
  | append_singleton names name ih =>
    obtain ⟨hlead, hname⟩ := components_name (h name (by simp))
    rw [pathBelow_append_singleton, Path.components_join _ hlead, hname,
      ih fun other hother => h other (List.mem_append_left _ hother), List.map_append,
      List.append_assoc]
    rfl

/-- The path of an entry leads to it. -/
lemma target?_pathBelow (htree : tree.WellFormed) (hbase : tree.directoryAt? directory = some base)
    {entry : Entry} (hentry : tree.lookup? (base ++ names) = some entry)
    (hlink : entry.kind ≠ .link) :
    tree.target? true (pathBelow directory names) = some (.found (base ++ names) entry) := by
  have hdirectory : tree.target? true directory = some (.found base .directory) :=
    Tree.directoryAt?_eq_some.mp hbase
  induction names using List.reverseRecOn generalizing entry with
  | nil =>
    rw [List.append_nil, Tree.lookup?_of_target? hdirectory] at hentry
    obtain rfl := Option.some.inj hentry
    rw [List.append_nil]
    exact hdirectory
  | append_singleton names name ih =>
    rw [← List.append_assoc] at hentry ⊢
    have hparent := htree.lookup?_parent hentry
    obtain ⟨hpart, hup⟩ := htree.isName hentry name (by simp)
    obtain ⟨left, hleft⟩ := tree.exists_target?_join (pathBelow directory names)
      hpart.toList_ne.1 hpart.2.2
    have hlead := Tree.lead?_of_target? (ih hparent (by simp [Entry.kind]))
    rw [pathBelow_append_singleton, hleft, hlead]
    exact Tree.walk_name left (by simp [hpart.1, hpart.2.1]) hup hparent hentry hlink

end Paths

/-! ## Files -/

/-- There is a route file at the location, and it can be reached from the first directory without
entering one that is passed over. -/
def IsRouteFileAt (tree : Tree) (discovery : Settings.Discovery) (base location : Location) : Prop :=
  ∃ directory bytes, tree.Reaches discovery.skipDirs base directory ∧
    location = directory ++ [discovery.routeFile] ∧ tree.lookup? location = some (.file bytes)

/-- The files are those at the locations, each once, in ascending order of routes and paths. -/
structure Finds (tree : Tree) (root apiDir : Path) (base : Location) (files : List RouteFile)
    (IsFound : Location → Prop) : Prop where
  ascending : files.Pairwise fun a b => a.sortKey < b.sortKey
  /-- The path of a file is made of the names on the way to it, and so is its route. -/
  located : ∀ file ∈ files, ∃ names, file = RouteFile.ofPath root (pathBelow apiDir names) ∧
    tree.fileAt? file.path = some (base ++ names)
  once : (files.filterMap fun file => tree.fileAt? file.path).Nodup
  exact : ∀ location, location ∈ (files.filterMap fun file => tree.fileAt? file.path) ↔
    IsFound location

/-- The names on the way to the entries that are taken. -/
def takenNames (discovery : Settings.Discovery) (entries : List (List String × Kind)) :
    List (List String) :=
  (entries.filter fun entry => isRouteFile discovery entry.1 entry.2).map Prod.fst

/-- The route files are those with the taken names, in order. -/
lemma routeFiles_eq (discovery : Settings.Discovery) (root apiDir : Path)
    (entries : List (List String × Kind)) :
    routeFiles discovery root apiDir entries
      = ((takenNames discovery entries).map fun names =>
          RouteFile.ofPath root (pathBelow apiDir names)).mergeSort RouteFile.le := by
  unfold routeFiles takenNames
  rw [List.map_map]
  rfl

section Files

variable {tree : Tree} {discovery : Settings.Discovery} {root apiDir : Path} {base : Location}
variable (htree : tree.WellFormed)
include htree

/-- By the names on the way and the kind of the entry it is known whether it is a route file that can
be reached. -/
lemma isRouteFile_iff {names : List String} {entry : Entry}
    (hentry : tree.lookup? (base ++ names) = some entry) :
    isRouteFile discovery names entry.kind = true ↔
      IsRouteFileAt tree discovery base (base ++ names) := by
  unfold isRouteFile
  rw [Bool.and_eq_true, Bool.and_eq_true, beq_iff_eq, beq_iff_eq, List.all_eq_true]
  constructor
  · rintro ⟨⟨hkind, hlast⟩, hall⟩
    obtain ⟨front, rfl⟩ := List.getLast?_eq_some_iff.mp hlast
    rw [← List.append_assoc] at hentry ⊢
    cases entry with
    | directory => cases hkind
    | link target => cases hkind
    | file bytes =>
      refine ⟨base ++ front, bytes, ?_, rfl, hentry⟩
      rw [htree.reaches_iff (htree.lookup?_parent hentry)]
      intro name hname
      simpa using hall name (by simpa using hname)
  · rintro ⟨directory, bytes, hreaches, hlocation, hfile⟩
    obtain ⟨front, rfl, hfront⟩ := hreaches.exists_names
    rw [List.append_assoc] at hlocation
    obtain rfl := List.append_cancel_left hlocation
    obtain rfl : entry = .file bytes := Option.some.inj (hentry.symm.trans hfile)
    refine ⟨⟨rfl, by simp⟩, ?_⟩
    intro name hname
    simpa using hfront name (by simpa using hname)

variable (hbase : tree.directoryAt? apiDir = some base)
include hbase

/-- An entry below the directory of routes is taken exactly if it is a route file that can be
reached. -/
lemma mem_takenNames_iff {names : List String} :
    names ∈ takenNames discovery (tree.below apiDir) ↔
      IsRouteFileAt tree discovery base (base ++ names) := by
  unfold takenNames
  rw [List.mem_map]
  constructor
  · rintro ⟨⟨names, kind⟩, hmem, rfl⟩
    obtain ⟨hbelow, htaken⟩ := List.mem_filter.mp hmem
    obtain ⟨-, entry, hentry, rfl⟩ := (htree.mem_below_iff hbase).mp hbelow
    exact (isRouteFile_iff htree hentry).mp htaken
  · intro hat
    obtain ⟨-, bytes, -, -, hfile⟩ := id hat
    have hne : names ≠ [] := by
      rintro rfl
      -- the directory of routes is no file
      rw [List.append_nil, Tree.lookup?_of_target? (Tree.directoryAt?_eq_some.mp hbase)] at hfile
      cases hfile
    refine ⟨(names, .file), List.mem_filter.mpr ⟨?_, (isRouteFile_iff htree hfile).mpr hat⟩, rfl⟩
    exact (htree.mem_below_iff hbase).mpr ⟨hne, .file bytes, hfile, rfl⟩

/-- The path of a route file leads to it. -/
lemma fileAt?_pathBelow {names : List String}
    (hat : IsRouteFileAt tree discovery base (base ++ names)) :
    tree.fileAt? (pathBelow apiDir names) = some (base ++ names) := by
  obtain ⟨directory, bytes, -, -, hfile⟩ := hat
  rw [Tree.fileAt?, target?_pathBelow htree hbase hfile (by simp [Entry.kind])]
  rfl

/-- No names are taken twice. -/
lemma nodup_takenNames (discovery : Settings.Discovery) :
    (takenNames discovery (tree.below apiDir)).Nodup :=
  (htree.nodup_below hbase).sublist (List.filter_sublist.map Prod.fst)

/-- Different route files have different paths. -/
lemma nodup_sortKey (discovery : Settings.Discovery) (root : Path) :
    (((takenNames discovery (tree.below apiDir)).map fun names =>
      RouteFile.ofPath root (pathBelow apiDir names)).map RouteFile.sortKey).Nodup := by
  have hcomponents : (((takenNames discovery (tree.below apiDir)).map fun names =>
        RouteFile.ofPath root (pathBelow apiDir names)).map RouteFile.sortKey).map
          (fun key => (ofLex key).2)
      = (takenNames discovery (tree.below apiDir)).map fun names =>
          apiDir.components ++ names.map .name := by
    rw [List.map_map, List.map_map]
    refine List.map_congr_left ?_
    intro names hnames
    obtain ⟨-, bytes, -, -, hfile⟩ := (mem_takenNames_iff htree hbase).mp hnames
    refine components_pathBelow apiDir ?_
    intro name hname
    exact htree.isName hfile name (List.mem_append_right _ hname)
  refine List.Nodup.of_map (fun key => (ofLex key).2) ?_
  rw [hcomponents]
  refine (nodup_takenNames htree hbase discovery).map ?_
  intro a b hab
  exact List.map_injective_iff.mpr (fun _ _ h => Path.Component.name.inj h)
    (List.append_cancel_left hab)

/-- The search below the directory of routes finds the route files that can be reached. -/
lemma finds_routeFiles (discovery : Settings.Discovery) (root : Path) :
    Finds tree root apiDir base (routeFiles discovery root apiDir (tree.below apiDir))
      (IsRouteFileAt tree discovery base) := by
  have hat {names : List String} : names ∈ takenNames discovery (tree.below apiDir) ↔
      IsRouteFileAt tree discovery base (base ++ names) := mem_takenNames_iff htree hbase
  rw [routeFiles_eq]
  have hperm := List.mergeSort_perm ((takenNames discovery (tree.below apiDir)).map fun names =>
    RouteFile.ofPath root (pathBelow apiDir names)) RouteFile.le
  -- the locations of the files, in the order in which they were listed
  have hlocations : (((takenNames discovery (tree.below apiDir)).map fun names =>
      RouteFile.ofPath root (pathBelow apiDir names)).filterMap fun file => tree.fileAt? file.path)
      = (takenNames discovery (tree.below apiDir)).map (base ++ ·) := by
    rw [List.filterMap_map, ← List.filterMap_eq_map]
    refine List.filterMap_congr ?_
    intro names hnames
    exact fileAt?_pathBelow htree hbase (hat.mp hnames)
  have hplaces := hperm.filterMap fun file => tree.fileAt? file.path
  rw [hlocations] at hplaces
  refine ⟨RouteFile.pairwise_mergeSort_lt (nodup_sortKey htree hbase discovery root), ?_, ?_, ?_⟩
  · intro file hfile
    obtain ⟨names, hnames, rfl⟩ := List.mem_map.mp (hperm.mem_iff.mp hfile)
    exact ⟨names, rfl, fileAt?_pathBelow htree hbase (hat.mp hnames)⟩
  · exact hplaces.nodup_iff.mpr
      ((nodup_takenNames htree hbase discovery).map (List.append_right_injective base))
  · intro location
    rw [hplaces.mem_iff, List.mem_map]
    constructor
    · rintro ⟨names, hnames, rfl⟩
      exact hat.mp hnames
    · intro hfile
      obtain ⟨directory, bytes, hreaches, rfl, -⟩ := id hfile
      obtain ⟨front, rfl, -⟩ := hreaches.exists_names
      rw [List.append_assoc] at hfile ⊢
      exact ⟨_, hat.mpr hfile, rfl⟩

end Files

/-! ## The directory of routes -/

/-- The directory of routes is passed over: it is no link, and the last name in its spelling is one
that is passed over, or the whole spelling if it does not end in a name. -/
def PassedOver (tree : Tree) (discovery : Settings.Discovery) (apiDir : Path) : Prop :=
  (tree.follow? false apiDir).map Entry.kind = some .directory ∧
    apiDir.fileName?.getD apiDir.text ∈ discovery.skipDirs

/-- The name of the directory is not one that is passed over. -/
def Enterable (discovery : Settings.Discovery) (base : Location) : Prop :=
  ∀ name ∈ base.getLast?, name ∉ discovery.skipDirs

/-- The directory of routes is skipped exactly if it is passed over. -/
lemma skipsRoot_iff (tree : Tree) (discovery : Settings.Discovery) (apiDir : Path) :
    skipsRoot discovery apiDir ((tree.follow? false apiDir).map Entry.kind) = true ↔
      PassedOver tree discovery apiDir := by
  unfold skipsRoot PassedOver
  rw [Bool.and_eq_true, beq_iff_eq, List.contains_iff_mem]

/-- The last name in the spelling of a directory that is no link decides, if it is its own name. -/
lemma not_passedOver_iff {tree : Tree} {discovery : Settings.Discovery} {apiDir : Path}
    {base : Location} (hkind : (tree.follow? false apiDir).map Entry.kind = some .directory)
    (hname : apiDir.fileName? = base.getLast?) (hne : base ≠ []) :
    ¬ PassedOver tree discovery apiDir ↔ Enterable discovery base := by
  obtain ⟨front, name, rfl⟩ := List.eq_nil_or_concat base |>.resolve_left hne
  unfold PassedOver Enterable
  rw [hname]
  simp [hkind]

section Search

variable {tree : Tree} {discovery : Settings.Discovery} {root : Path} {base : Location}

/-- A directory that has a location is there. -/
lemma gives_isDirectory_true {path : Path} {location : Location}
    (h : tree.directoryAt? path = some location) :
    Command.Session.Gives (Files.isDirectory (m := OnTree) path : Command.Session OnTree Bool) tree
      (.ok true) tree := by
  have hgives := Command.Apply.gives_isDirectory tree path
  have htarget : tree.target? true path = some (.found location .directory) :=
    Tree.directoryAt?_eq_some.mp h
  rwa [Tree.follow?, htarget] at hgives

/-- What the search of a tree gives, if its directory of routes is there. -/
def found (tree : Tree) (discovery : Settings.Discovery) (root : Path) : List RouteFile :=
  if skipsRoot discovery (root.join ⟨discovery.apiDir⟩)
      ((tree.follow? false (root.join ⟨discovery.apiDir⟩)).map Entry.kind) then []
  else routeFiles discovery root (root.join ⟨discovery.apiDir⟩)
    (tree.below (root.join ⟨discovery.apiDir⟩))

/-- With a root and a directory of routes, the discovery comes to the route files. -/
lemma gives_discover (hroot : (tree.directoryAt? root).isSome = true)
    (hbase : tree.directoryAt? (root.join ⟨discovery.apiDir⟩) = some base) :
    Command.Session.Gives (discover (m := OnTree) discovery root) tree
      (.ok (found tree discovery root)) tree := by
  obtain ⟨place, hplace⟩ := Option.isSome_iff_exists.mp hroot
  unfold discover
  refine (gives_isDirectory_true hplace).bind ?_
  refine (gives_isDirectory_true hbase).bind ?_
  refine (Command.Session.gives_lift _).bind ?_
  refine (Command.Session.gives_lift _).bind ?_
  exact (Command.Session.gives_write _).bind (Command.Session.gives_pure _)

/-- Nothing is found where there is nothing. -/
lemma finds_nil (tree : Tree) (root apiDir : Path) (base : Location) :
    Finds tree root apiDir base [] fun _ => False where
  ascending := List.Pairwise.nil
  located := by simp
  once := List.nodup_nil
  exact := by simp

/-- Files are found at one set of locations. -/
lemma Finds.iff_forall {apiDir : Path} {files : List RouteFile} {IsFound : Location → Prop}
    (h : Finds tree root apiDir base files IsFound) (Other : Location → Prop) :
    Finds tree root apiDir base files Other ↔ ∀ location, IsFound location ↔ Other location := by
  constructor
  · intro hother location
    rw [← h.exact, hother.exact]
  · intro hsame
    exact ⟨h.ascending, h.located, h.once, fun location => (h.exact location).trans (hsame location)⟩

/-- The search finds the route files that can be reached, unless the directory of routes is passed
over. -/
lemma finds_found (htree : tree.WellFormed)
    (hbase : tree.directoryAt? (root.join ⟨discovery.apiDir⟩) = some base) :
    Finds tree root (root.join ⟨discovery.apiDir⟩) base (found tree discovery root)
      fun location => ¬ PassedOver tree discovery (root.join ⟨discovery.apiDir⟩) ∧
        IsRouteFileAt tree discovery base location := by
  unfold found
  split
  · next hskips =>
    rw [skipsRoot_iff] at hskips
    refine ((finds_nil tree root _ base).iff_forall _).mpr ?_
    simp [hskips]
  · next hskips =>
    rw [skipsRoot_iff] at hskips
    refine ((finds_routeFiles htree hbase discovery root).iff_forall _).mpr ?_
    simp [hskips]

/-- In a project whose directory of routes is there, the search finds the route files that can be
reached from it, each once, in ascending order of routes and paths, unless that directory is passed
over; then it finds none. These are the files that can be reached without entering a directory whose
name is passed over, the directory of routes included, exactly if that directory is passed over by
its own name, or there are none. It is passed over by its own name if it is no link and its spelling
ends in that name. -/
theorem discover_finds_iff (htree : tree.WellFormed) (hroot : (tree.directoryAt? root).isSome = true)
    (hbase : tree.directoryAt? (root.join ⟨discovery.apiDir⟩) = some base) :
    ∃ files, Command.Session.Gives (discover (m := OnTree) discovery root) tree (.ok files) tree ∧
      Finds tree root (root.join ⟨discovery.apiDir⟩) base files (fun location =>
        ¬ PassedOver tree discovery (root.join ⟨discovery.apiDir⟩) ∧
          IsRouteFileAt tree discovery base location) ∧
      (Finds tree root (root.join ⟨discovery.apiDir⟩) base files (fun location =>
          Enterable discovery base ∧ IsRouteFileAt tree discovery base location) ↔
        (¬ PassedOver tree discovery (root.join ⟨discovery.apiDir⟩) ↔ Enterable discovery base) ∨
          ∀ location, ¬ IsRouteFileAt tree discovery base location) ∧
      ((tree.follow? false (root.join ⟨discovery.apiDir⟩)).map Entry.kind = some .directory →
        (root.join ⟨discovery.apiDir⟩).fileName? = base.getLast? → base ≠ [] →
        (¬ PassedOver tree discovery (root.join ⟨discovery.apiDir⟩) ↔
          Enterable discovery base)) := by
  have hfinds := finds_found htree hbase
  refine ⟨found tree discovery root, gives_discover hroot hbase, hfinds, ?_, not_passedOver_iff⟩
  rw [hfinds.iff_forall]
  constructor
  · intro hsame
    by_cases hnone : ∀ location, ¬ IsRouteFileAt tree discovery base location
    · exact .inr hnone
    · obtain ⟨location, hfile⟩ := not_forall_not.mp hnone
      have hhere := hsame location
      simp only [hfile, and_true] at hhere
      exact .inl hhere
  · rintro (hsame | hnone) location
    · rw [hsame]
    · simp [hnone location]

end Search

/-- A directory that is passed over lies deep inside, a file has the name of one, and a directory has
the name of the route files. -/
theorem discover_finds_iff_nested :
    let tree : Tree :=
      { entries := [(["app"], .directory), (["app", "api"], .directory),
          (["app", "api", "users"], .directory), (["app", "api", "users", ".git"], .directory),
          (["app", "api", "users", ".git", "route.ts"], .file .empty),
          (["app", "api", "users", "node_modules"], .file .empty),
          (["app", "api", "route.ts"], .directory),
          (["app", "api", "route.ts", "route.ts"], .file .empty)]
        workingDirectory := [] }
    let base : Location := ["app", "api"]
    tree.WellFormed ∧ (tree.directoryAt? ⟨"/"⟩).isSome = true ∧
      tree.directoryAt? ((Path.mk "/").join ⟨"app/api"⟩) = some base ∧
      IsRouteFileAt tree {} base ["app", "api", "route.ts", "route.ts"] ∧
      ¬ IsRouteFileAt tree {} base ["app", "api", "users", ".git", "route.ts"] ∧
      ∃ files, Command.Session.Gives (discover (m := OnTree) {} ⟨"/"⟩) tree (.ok files) tree ∧
        Finds tree ⟨"/"⟩ ((Path.mk "/").join ⟨"app/api"⟩) base files fun location =>
          Enterable {} base ∧ IsRouteFileAt tree {} base location := by
  intro tree base
  have htree : tree.WellFormed := ⟨by decide, by decide +kernel, by simp [tree, Tree.lookup?]⟩
  have hjoin : (Path.mk "/").join ⟨"app/api"⟩ = ⟨"/app/api"⟩ := by decide +kernel
  have hparts : Tree.partsOf ⟨"/"⟩ = [""] ∧ Tree.partsOf ⟨"/app/api"⟩ = base := by decide +kernel
  have habsolute : Path.isAbsolute ⟨"/"⟩ = true ∧ Path.isAbsolute ⟨"/app/api"⟩ = true := by
    decide +kernel
  have hroot : tree.target? true ⟨"/"⟩ = some (.found [] .directory) := by
    simp [Tree.target?, Tree.lead?, Tree.walk, Tree.lookup?, hparts, habsolute, Entry.isDirectory]
  have htarget (whole : Bool) : tree.target? whole ⟨"/app/api"⟩ = some (.found base .directory) := by
    simp [tree, base, Tree.target?, Tree.lead?, Tree.walk, Tree.lookup?, hparts, habsolute,
      Entry.isDirectory]
  have hisRoot : (tree.directoryAt? ⟨"/"⟩).isSome = true := by
    rw [Tree.directoryAt?_eq_some.mpr hroot]
    rfl
  have hbase : tree.directoryAt? ((Path.mk "/").join ⟨"app/api"⟩) = some base := by
    rw [hjoin, Tree.directoryAt?_eq_some]
    exact htarget true
  have hnested : IsRouteFileAt tree {} base ["app", "api", "route.ts", "route.ts"] :=
    ⟨["app", "api", "route.ts"], .empty,
      .enter .start (by simp [tree, base, Tree.lookup?]) (by decide), rfl,
      by simp [tree, Tree.lookup?]⟩
  have hskipped : ¬ IsRouteFileAt tree {} base ["app", "api", "users", ".git", "route.ts"] := by
    have hiff := @isRouteFile_iff tree {} base htree ["users", ".git", "route.ts"] (.file .empty)
      (by simp [tree, base, Tree.lookup?])
    exact mt hiff.mpr (by decide)
  obtain ⟨files, hgives, -, hiff, hnamed⟩ :=
    @discover_finds_iff tree {} ⟨"/"⟩ base htree hisRoot hbase
  refine ⟨htree, hisRoot, hbase, hnested, hskipped, files, hgives, hiff.mpr (.inl (hnamed ?_ ?_ ?_))⟩
  · rw [hjoin, Tree.follow?, htarget]
    rfl
  · decide +kernel
  · exact List.cons_ne_nil _ _

/-- A project lies in a directory whose name is passed over, and its routes are in that directory
itself. Spelled `.`, the directory is entered; spelled with its name, it is passed over. -/
theorem discover_enters_passed_over :
    let tree : Tree :=
      { entries := [(["node_modules"], .directory), (["node_modules", "users"], .directory),
          (["node_modules", "users", "route.ts"], .file .empty)]
        workingDirectory := ["node_modules"] }
    let discovery : Settings.Discovery := { apiDir := "." }
    tree.WellFormed ∧ tree.directoryAt? ((Path.mk ".").join ⟨"."⟩) = some ["node_modules"] ∧
      tree.directoryAt? ((Path.mk "/node_modules").join ⟨"."⟩) = some ["node_modules"] ∧
      ¬ Enterable discovery ["node_modules"] ∧
      Command.Session.Gives (discover (m := OnTree) discovery ⟨"."⟩) tree
        (.ok [⟨⟨"users/route.ts"⟩, ⟨"././users/route.ts"⟩⟩]) tree ∧
      Command.Session.Gives (discover (m := OnTree) discovery ⟨"/node_modules"⟩) tree (.ok [])
        tree := by
  intro tree discovery
  have hjoin : (Path.mk ".").join ⟨"."⟩ = ⟨"./."⟩ ∧
      (Path.mk "/node_modules").join ⟨"."⟩ = ⟨"/node_modules/."⟩ := by decide +kernel
  have hparts : Tree.partsOf ⟨"."⟩ = ["."] ∧ Tree.partsOf ⟨"./."⟩ = [".", "."] ∧
      Tree.partsOf ⟨"/node_modules"⟩ = ["node_modules"] ∧
      Tree.partsOf ⟨"/node_modules/."⟩ = ["node_modules", "."] := by decide +kernel
  have habsolute : Path.isAbsolute ⟨"."⟩ = false ∧ Path.isAbsolute ⟨"./."⟩ = false ∧
      Path.isAbsolute ⟨"/node_modules"⟩ = true ∧ Path.isAbsolute ⟨"/node_modules/."⟩ = true := by
    decide +kernel
  have htarget (whole : Bool) (path : Path)
      (h : path ∈ [⟨"."⟩, ⟨"./."⟩, ⟨"/node_modules"⟩, Path.mk "/node_modules/."]) :
      tree.target? whole path = some (.found ["node_modules"] .directory) := by
    simp only [List.mem_cons, List.not_mem_nil, or_false] at h
    rcases h with rfl | rfl | rfl | rfl <;>
      simp [tree, Tree.target?, Tree.lead?, Tree.walk, Tree.lookup?, hparts, habsolute,
        Entry.isDirectory]
  have hplace (path : Path)
      (h : path ∈ [⟨"."⟩, ⟨"./."⟩, ⟨"/node_modules"⟩, Path.mk "/node_modules/."]) :
      tree.directoryAt? path = some ["node_modules"] :=
    Tree.directoryAt?_eq_some.mpr (htarget true path h)
  have hhere : tree.directoryAt? ((Path.mk ".").join ⟨"."⟩) = some ["node_modules"] := by
    rw [hjoin.1]
    exact hplace _ (by simp)
  have hthere : tree.directoryAt? ((Path.mk "/node_modules").join ⟨"."⟩)
      = some ["node_modules"] := by
    rw [hjoin.2]
    exact hplace _ (by simp)
  refine ⟨⟨by decide, by decide +kernel, by simp [tree, Tree.lookup?]⟩, hhere, hthere, ?_, ?_, ?_⟩
  · intro h
    exact h "node_modules" rfl (by decide)
  · have hgives := @gives_discover tree discovery ⟨"."⟩ ["node_modules"]
      (by rw [hplace _ (by simp)]; rfl) hhere
    have hkept : skipsRoot discovery ⟨"./."⟩ (some .directory) = false := by decide +kernel
    have hbelow : tree.below ⟨"./."⟩
        = [(["users"], .directory), (["users", "route.ts"], .file)] := by
      rw [Tree.below, htarget _ _ (by simp)]
      rfl
    have htaken : takenNames discovery [(["users"], .directory), (["users", "route.ts"], .file)]
        = [["users", "route.ts"]] := by decide +kernel
    have hfile : RouteFile.ofPath ⟨"."⟩ (pathBelow ⟨"./."⟩ ["users", "route.ts"])
        = ⟨⟨"users/route.ts"⟩, ⟨"././users/route.ts"⟩⟩ := by decide +kernel
    rw [found, hjoin.1, Tree.follow?, htarget _ _ (by simp), hbelow, routeFiles_eq, htaken] at hgives
    simpa [Entry.kind, hkept, hfile] using hgives
  · have hgives := @gives_discover tree discovery ⟨"/node_modules"⟩ ["node_modules"]
      (by rw [hplace _ (by simp)]; rfl) hthere
    have hskipped : skipsRoot discovery ⟨"/node_modules/."⟩ (some .directory) = true := by
      decide +kernel
    rw [found, hjoin.2, Tree.follow?, htarget _ _ (by simp)] at hgives
    simpa [Entry.kind, hskipped] using hgives

end CachedRoutes.Discovery
