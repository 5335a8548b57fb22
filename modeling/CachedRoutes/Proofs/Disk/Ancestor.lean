import CachedRoutes.Proofs.Disk.Spelling
import CachedRoutes.Proofs.Disk.Tree

/-!
# Where the beginnings of a path lead

A walk over two pieces of a path is a walk over the first piece and then one over the second, with
the links that are left (`exists_walk_append`). So a name below a path is looked for where the path
leads (`exists_target?_join`), and every beginning of a path to a directory leads to a directory
(`exists_walk_front`).

The ancestors of a path are the directories around the one that it leads to only if the spelling
climbs nowhere and meets no link. Then they lead to where their names say
(`baseAt?_of_direct`), each with one name less than the one before
(`find?_names_enclosing`).
-/

namespace CachedRoutes.Disk

/-! ## Walks -/

/-- The location of an entry that was found. -/
def Tree.Target.place? : Tree.Target → Option Location
  | found location _ => some location
  | vacant _ => none

/-- The location of a directory that was found. -/
def Tree.Target.directory? : Tree.Target → Option Location
  | found location .directory => some location
  | _ => none

namespace Tree

variable {tree : Tree}

/-- The test for a directory at a location. -/
lemma any_isDirectory_iff {location : Location} :
    (tree.lookup? location).any Entry.isDirectory = true ↔
      tree.lookup? location = some .directory := by
  cases tree.lookup? location with
  | none => simp
  | some entry => cases entry <;> simp [Entry.isDirectory]

/-- A walk that goes on is at a directory. -/
lemma lookup?_of_walk_cons {whole : Bool} {links : Nat} {here : Location} {part : String}
    {rest : List String} {target : Target}
    (h : tree.walk whole links here (part :: rest) = some target) :
    tree.lookup? here = some .directory := by
  unfold walk at h
  split at h
  · cases h
  · next hdirectory =>
    rwa [Bool.not_eq_true', Bool.not_eq_false, any_isDirectory_iff] at hdirectory

/-- A walk to a directory starts at one. -/
lemma lookup?_start_of_walk {links : Nat} {here location : Location}
    {parts : List String}
    (h : tree.walk true links here parts = some (.found location .directory)) :
    tree.lookup? here = some .directory := by
  cases parts with
  | nil =>
    rw [walk] at h
    obtain ⟨entry, hentry, htarget⟩ := Option.map_eq_some_iff.mp h
    cases htarget
    exact hentry
  | cons part rest => exact lookup?_of_walk_cons h

/-- A walk over two pieces is one over the first and then, with the links that are left, one over
the second. -/
lemma exists_walk_append (tree : Tree) (links : Nat) (here : Location) (front : List String) :
    ∃ left, ∀ back, back ≠ [] →
      tree.walk true links here (front ++ back)
        = ((tree.walk true links here front).bind Target.place?).bind
            fun place => tree.walk true left place back := by
  fun_induction walk tree true links here front with
  | case1 links here =>
    refine ⟨links, ?_⟩
    intro back hback
    obtain ⟨part, rest, rfl⟩ := List.exists_cons_of_ne_nil hback
    cases hentry : tree.lookup? here with
    | none => simp [walk, hentry]
    | some entry => rfl
  | case2 links here part rest hdirectory =>
    exact ⟨links, fun back _ => by rw [List.cons_append, walk, if_pos hdirectory]; rfl⟩
  | case3 links here part rest hdirectory hpart ih =>
    obtain ⟨left, hleft⟩ := ih
    refine ⟨left, fun back hback => ?_⟩
    rw [List.cons_append, walk, if_neg hdirectory, if_pos hpart]
    exact hleft back hback
  | case4 links here rest hdirectory hpart ih =>
    obtain ⟨left, hleft⟩ := ih
    refine ⟨left, fun back hback => ?_⟩
    rw [List.cons_append, walk, if_neg hdirectory, if_neg hpart, if_pos rfl]
    exact hleft back hback
  | case5 links here part rest hdirectory hpart hup there hnone hend =>
    refine ⟨links, fun back hback => ?_⟩
    rw [List.cons_append, walk, if_neg hdirectory, if_neg hpart, if_neg hup]
    simp [show tree.lookup? (here ++ [part]) = none from hnone, hback, Target.place?]
  | case6 links here part rest hdirectory hpart hup there hnone hend =>
    refine ⟨links, fun back hback => ?_⟩
    rw [List.cons_append, walk, if_neg hdirectory, if_neg hpart, if_neg hup]
    simp [show tree.lookup? (here ++ [part]) = none from hnone, hback]
  | case7 links here part rest hdirectory hpart hup there target hlink hend =>
    simp at hend
  | case8 here part rest hdirectory hpart hup there target hlink hend =>
    refine ⟨0, fun back hback => ?_⟩
    rw [List.cons_append, walk, if_neg hdirectory, if_neg hpart, if_neg hup]
    simp [show tree.lookup? (here ++ [part]) = _ from hlink]
  | case9 here part rest hdirectory hpart hup there target hlink hend links ih =>
    obtain ⟨left, hleft⟩ := ih
    refine ⟨left, fun back hback => ?_⟩
    rw [List.cons_append, walk, if_neg hdirectory, if_neg hpart, if_neg hup]
    simp only [show tree.lookup? (here ++ [part]) = _ from hlink, Bool.not_true,
      Bool.and_false, Bool.false_eq_true, if_false]
    rw [← List.append_assoc]
    exact hleft back hback
  | case10 links here part rest hdirectory hpart hup there found hlink hfound ih =>
    obtain ⟨left, hleft⟩ := ih
    refine ⟨left, fun back hback => ?_⟩
    rw [List.cons_append, walk, if_neg hdirectory, if_neg hpart, if_neg hup]
    cases found with
    | file bytes =>
      simpa only [show tree.lookup? (here ++ [part]) = _ from hfound] using hleft back hback
    | directory =>
      simpa only [show tree.lookup? (here ++ [part]) = _ from hfound] using hleft back hback
    | link target => exact absurd rfl (hlink target)

/-- Each beginning of a walk that arrives is at a directory. -/
lemma exists_walk_front {links : Nat} {here location : Location} {front back : List String}
    (h : tree.walk true links here (front ++ back) = some (.found location .directory)) :
    ∃ place, tree.walk true links here front = some (.found place .directory) := by
  cases back with
  | nil => exact ⟨location, by rwa [List.append_nil] at h⟩
  | cons part rest =>
    obtain ⟨left, hleft⟩ := exists_walk_append tree links here front
    rw [hleft _ (List.cons_ne_nil _ _)] at h
    obtain ⟨place, hplace, hback⟩ := Option.bind_eq_some_iff.mp h
    obtain ⟨target, hfront, hfound⟩ := Option.bind_eq_some_iff.mp hplace
    cases target with
    | vacant other => cases hfound
    | found other entry =>
      obtain rfl := Option.some.inj hfound
      have hentry : tree.lookup? other = some entry := lookup?_of_walk hfront
      rw [lookup?_of_walk_cons hback] at hentry
      obtain rfl := Option.some.inj hentry
      exact ⟨other, hfront⟩

/-- A name that is no link leads to its entry. -/
lemma walk_name (links : Nat) {here : Location} {name : String} {entry : Entry}
    (hblank : ¬(name = "" || name = ".") = true) (hup : name ≠ "..")
    (hhere : tree.lookup? here = some .directory)
    (hentry : tree.lookup? (here ++ [name]) = some entry) (hlink : entry.kind ≠ .link) :
    tree.walk true links here [name] = some (.found (here ++ [name]) entry) := by
  rw [walk, hhere, if_neg (by simp [Entry.isDirectory]), if_neg hblank, if_neg hup]
  cases entry with
  | file bytes =>
    simp only [hentry, walk]
    rfl
  | directory =>
    simp only [hentry, walk]
    rfl
  | link target => exact absurd rfl hlink

/-- Where a path starts. -/
def startOf (tree : Tree) (path : Path) : Location :=
  if path.isAbsolute then [] else tree.workingDirectory

/-- The directory that a target is. -/
lemma directory?_eq_some_iff {target : Option Target} {location : Location} :
    target.bind Target.directory? = some location ↔ target = some (.found location .directory) := by
  rw [Option.bind_eq_some_iff]
  constructor
  · rintro ⟨found, rfl, hdirectory⟩
    cases found with
    | vacant other => cases hdirectory
    | found other entry =>
      cases entry with
      | directory =>
        obtain rfl := Option.some.inj hdirectory
        rfl
      | file bytes => cases hdirectory
      | link link => cases hdirectory
  · rintro rfl
    exact ⟨_, rfl, rfl⟩

/-- The directory that a path leads to. -/
def directoryAt? (tree : Tree) (path : Path) : Option Location :=
  (tree.target? true path).bind Target.directory?

/-- A path has a directory for its location exactly if it leads to one. -/
lemma directoryAt?_eq_some {path : Path} {location : Location} :
    tree.directoryAt? path = some location ↔
      tree.target? true path = some (.found location .directory) :=
  directory?_eq_some_iff

/-- The directory in which names below a path are looked for. That is the one that the path leads to,
and for the empty path, which leads nowhere itself, it is the working directory. -/
def baseAt? (tree : Tree) (path : Path) : Option Location :=
  (tree.lead? true path).bind Target.directory?

/-- Names that are joined to a path are looked for where the walk along its parts ends, in a
directory. -/
lemma baseAt?_eq_some {path : Path} {location : Location} :
    tree.baseAt? path = some location ↔
      tree.walk true linkLimit (tree.startOf path) (partsOf path)
        = some (.found location .directory) :=
  directory?_eq_some_iff

/-- Names below a path to a directory are looked for in that directory. -/
lemma directoryAt?_eq_baseAt? (tree : Tree) {path : Path} (h : path.text ≠ "") :
    tree.directoryAt? path = tree.baseAt? path := by
  rw [directoryAt?, target?_eq_lead? tree true h]
  rfl

/-- A path has a part, even if that is empty. -/
lemma partsOf_ne_nil (path : Path) : partsOf path ≠ [] := by
  simpa [partsOf] using path.parts_ne_nil

/-- An empty part leads nowhere else. -/
lemma walk_append_blank (links : Nat) (here : Location) (front : List String) {back : List String}
    (hback : back ≠ []) :
    tree.walk true links here (front ++ "" :: back) = tree.walk true links here (front ++ back) := by
  obtain ⟨left, hleft⟩ := exists_walk_append tree links here front
  obtain ⟨part, rest, rfl⟩ := List.exists_cons_of_ne_nil hback
  rw [hleft _ (List.cons_ne_nil _ _), hleft _ (List.cons_ne_nil _ _)]
  congr 1
  funext place
  rw [walk]
  split
  · next hdirectory => rw [walk, if_pos hdirectory]
  · rfl

/-- A name below a path is looked for where the path leads. -/
lemma exists_target?_join (tree : Tree) (path : Path) {name : String} (hne : name.toList ≠ [])
    (hname : '/' ∉ name.toList) :
    ∃ left, tree.target? true (path.join ⟨name⟩)
      = ((tree.lead? true path).bind Target.place?).bind
          fun place => tree.walk true left place [name] := by
  obtain ⟨hrelative, hsingle⟩ := Path.parts_name hne hname
  obtain ⟨habsolute, front, hjoin, hparts⟩ := path.exists_parts_join hrelative
  obtain ⟨left, hleft⟩ := exists_walk_append tree linkLimit (tree.startOf path) (partsOf path)
  refine ⟨left, ?_⟩
  have hpath : tree.walk true linkLimit (tree.startOf path) (partsOf path ++ [name])
      = tree.walk true linkLimit (tree.startOf path) (front.map String.ofList ++ [name]) := by
    unfold partsOf
    rcases hparts with hsame | hblank
    · rw [hsame]
    · rw [hblank, List.map_append, List.append_assoc]
      exact walk_append_blank _ _ _ (List.cons_ne_nil _ _)
  have hpartsOf : partsOf (path.join ⟨name⟩) = front.map String.ofList ++ [name] := by
    rw [partsOf, hjoin, hsingle, List.map_append, List.map_singleton, String.ofList_toList]
  have hspelled : (path.join ⟨name⟩).text ≠ "" := by
    intro hempty
    have hparts : partsOf ⟨""⟩ = [""] := rfl
    rw [show path.join ⟨name⟩ = ⟨""⟩ from congrArg Path.mk hempty, hparts] at hpartsOf
    have hlast := congrArg List.getLast? hpartsOf
    rw [List.getLast?_concat] at hlast
    exact hne (congrArg String.toList (Option.some.inj hlast.symm))
  rw [target?_eq_lead? tree true hspelled]
  show tree.walk true linkLimit (if (path.join ⟨name⟩).isAbsolute then _ else _) _ = _
  rw [habsolute, hpartsOf]
  exact hpath.symm.trans (hleft _ (List.cons_ne_nil _ _))

/-! ## Direct spellings -/

/-- The parts that name something. -/
def names (parts : List String) : List String :=
  parts.filter fun part => !(part = "" || part = ".")

/-- The names of two lists of parts, one after the other. -/
lemma names_append (front back : List String) : names (front ++ back) = names front ++ names back :=
  List.filter_append front back

/-- A part that names nothing is passed over. -/
lemma names_cons_of_blank {part : String} (h : (part = "" || part = ".") = true)
    (rest : List String) : names (part :: rest) = names rest :=
  List.filter_cons_of_neg (by simp [h])

/-- A part that names something is a name. -/
lemma names_cons {part : String} (h : ¬(part = "" || part = ".") = true) (rest : List String) :
    names (part :: rest) = part :: names rest :=
  List.filter_cons_of_pos (by simpa using h)

/-- The spelling goes from its start straight down to where it leads. -/
structure Direct (tree : Tree) (path : Path) : Prop where
  climbs_nowhere : ".." ∉ partsOf path
  meets_no_link : ∀ front, front <+: names (partsOf path) →
    ∀ target, tree.lookup? (tree.startOf path ++ front) ≠ some (.link target)

/-- A walk that climbs nowhere and meets no link ends where its names say. -/
lemma eq_append_names {whole : Bool} {links : Nat} {here location : Location}
    {parts : List String} {entry : Entry}
    (h : tree.walk whole links here parts = some (.found location entry)) (hup : ".." ∉ parts)
    (hlink : ∀ front, front <+: names parts →
      ∀ target, tree.lookup? (here ++ front) ≠ some (.link target)) :
    location = here ++ names parts := by
  fun_induction walk tree whole links here parts with
  | case1 links here =>
    obtain ⟨found, -, htarget⟩ := Option.map_eq_some_iff.mp h
    cases htarget
    exact (List.append_nil _).symm
  | case2 => cases h
  | case3 links here part rest hdirectory hpart ih =>
    rw [names_cons_of_blank hpart] at hlink ⊢
    exact ih h (List.not_mem_of_not_mem_cons hup) hlink
  | case4 links here rest hdirectory hpart ih => exact absurd List.mem_cons_self hup
  | case5 => cases h
  | case6 => cases h
  | case7 links here part rest hdirectory hpart hclimb there target hentry hend =>
    exact absurd hentry (hlink [part] (by simp [names_cons hpart]) target)
  | case8 => cases h
  | case9 here part rest hdirectory hpart hclimb there target hentry hend links ih =>
    exact absurd hentry (hlink [part] (by simp [names_cons hpart]) target)
  | case10 links here part rest hdirectory hpart hclimb there found hnotLink hfound ih =>
    rw [names_cons hpart] at hlink ⊢
    rw [ih h (List.not_mem_of_not_mem_cons hup), List.append_assoc, List.singleton_append]
    intro front hfront target
    rw [List.append_assoc, List.singleton_append]
    exact hlink _ (List.cons_prefix_cons.mpr ⟨rfl, hfront⟩) target

/-- The ancestors of a direct spelling lead to where their names say. -/
lemma baseAt?_of_direct {path ancestor : Path} {location : Location}
    (hdirect : tree.Direct path) (hpath : tree.baseAt? path = some location)
    (hancestor : ancestor ∈ path.ancestors) :
    tree.baseAt? ancestor = some (tree.startOf path ++ names (partsOf ancestor)) := by
  rw [baseAt?_eq_some] at hpath
  rcases List.mem_cons.mp hancestor with rfl | henclosing
  · rw [baseAt?_eq_some, hpath,
      eq_append_names hpath hdirect.climbs_nowhere hdirect.meets_no_link]
  · obtain ⟨back, hback, rfl⟩ := Path.exists_of_mem_enclosing henclosing
    have hseparable := path.separable_settle.suffix hback
    have hstart : tree.startOf (Path.ofReversed path.isAbsolute back) = tree.startOf path := by
      unfold startOf
      rw [Path.isAbsolute_ofReversed hseparable]
    rw [baseAt?_eq_some, hstart]
    by_cases hnil : back = []
    · -- the start of the path, spelled by no part
      have hparts : partsOf (Path.ofReversed path.isAbsolute back) = [""] := by
        rw [partsOf, Path.parts_ofReversed hseparable, if_pos hnil]
        rfl
      obtain ⟨part, rest, hcons⟩ := List.exists_cons_of_ne_nil (partsOf_ne_nil path)
      rw [hcons] at hpath
      rw [hparts]
      simp [walk, lookup?_of_walk_cons hpath, Entry.isDirectory, names]
    · obtain ⟨rest, hrest⟩ : ∃ rest, back.reverse ++ rest = path.parts := by
        obtain ⟨front, hfront⟩ := hback.trans (Path.settle_suffix _ _)
        exact ⟨front.reverse, by rw [← List.reverse_append, hfront, List.reverse_reverse]⟩
      have hparts : partsOf path
          = partsOf (Path.ofReversed path.isAbsolute back) ++ rest.map String.ofList := by
        rw [partsOf, partsOf, Path.parts_ofReversed hseparable, if_neg hnil, ← hrest,
          List.map_append]
      rw [hparts] at hpath
      obtain ⟨place, hplace⟩ := exists_walk_front hpath
      rw [hplace, ← eq_append_names hplace]
      · intro hmem
        exact hdirect.climbs_nowhere (by rw [hparts]; exact List.mem_append_left _ hmem)
      · intro front hfront
        apply hdirect.meets_no_link
        rw [hparts, names_append]
        exact hfront.trans (List.prefix_append _ _)

/-! ## The names of the ancestors -/

/-- The names of reversed parts. -/
def namesBack (rev : List (List Char)) : List String :=
  names (rev.reverse.map String.ofList)

/-- A part names nothing if it is empty or a dot, also as a list of characters. -/
lemma isBlank_ofList (part : List Char) :
    (String.ofList part = "" || String.ofList part = ".") = (part = [] || part = ['.']) := by
  simp [← String.toList_inj]

/-- A last part that names nothing is passed over. -/
lemma namesBack_cons_of_blank {part : List Char} (h : (part = [] || part = ['.']) = true)
    (rest : List (List Char)) : namesBack (part :: rest) = namesBack rest := by
  rw [← isBlank_ofList] at h
  unfold namesBack
  rw [List.reverse_cons, List.map_append, names_append, List.map_singleton, names_cons_of_blank h]
  exact List.append_nil _

/-- A last part that names something is the last name. -/
lemma namesBack_cons {part : List Char} (h : ¬(part = [] || part = ['.']) = true)
    (rest : List (List Char)) :
    namesBack (part :: rest) = namesBack rest ++ [String.ofList part] := by
  rw [← isBlank_ofList] at h
  unfold namesBack
  rw [List.reverse_cons, List.map_append, names_append, List.map_singleton, names_cons h]
  rfl

/-- Parts that are settled away name nothing. -/
lemma namesBack_settle (absolute : Bool) (rev : List (List Char)) :
    namesBack (Path.settle absolute rev) = namesBack rev := by
  fun_induction Path.settle absolute rev with
  | case1 => rfl
  | case2 part hblank =>
    have hname : (part = [] || part = ['.']) = true := by
      simp at hblank ⊢
      exact hblank.imp_right And.left
    exact (namesBack_cons_of_blank hname []).symm
  | case3 part hblank => rfl
  | case4 part next rest hblank ih => exact ih.trans (namesBack_cons_of_blank hblank _).symm
  | case5 part next rest hblank => rfl

/-- The names of a path that is made of reversed parts. -/
lemma names_ofReversed {absolute : Bool} {rev : List (List Char)}
    (h : Path.Separable absolute rev) :
    names (partsOf (Path.ofReversed absolute rev)) = namesBack rev := by
  rw [partsOf, Path.parts_ofReversed h]
  split
  · next hnil =>
    rw [hnil]
    rfl
  · rfl

/-- A location and those around it, nearest first. -/
def around (location : Location) : List Location :=
  location.inits.reverse

/-- Around a location are the location itself and those around its directory. -/
lemma around_append_singleton (location : Location) (name : String) :
    around (location ++ [name]) = (location ++ [name]) :: around location := by
  simp [around, List.inits_append]

/-- Locations around another have no more names. -/
lemma length_le_of_mem_around {location other : Location} (h : other ∈ around location) :
    other.length ≤ location.length :=
  ((List.mem_inits _ _).mp (List.mem_reverse.mp h)).length_le

/-- No location is around another twice. -/
lemma nodup_around (location : Location) : (around location).Nodup := by
  induction location using List.reverseRecOn with
  | nil => exact List.pairwise_singleton _ _
  | append_singleton location name ih =>
    rw [around_append_singleton, List.nodup_cons]
    refine ⟨?_, ih⟩
    intro hmem
    have hlength := length_le_of_mem_around hmem
    rw [List.length_append, List.length_singleton] at hlength
    omega

/-- The locations around one that are not above a start are those of the way from the start down. -/
lemma filter_around_append (start rest : Location) :
    (around (start ++ rest)).filter (fun location => start.isPrefixOf location)
      = (around rest).map (start ++ ·) := by
  induction rest using List.reverseRecOn with
  | nil =>
    rcases List.eq_nil_or_concat start with rfl | ⟨parent, name, rfl⟩
    · rfl
    · rw [List.append_nil, List.concat_eq_append, around_append_singleton, List.filter_cons_of_pos,
        List.filter_eq_nil_iff.mpr]
      · rw [show around [] = [[]] from rfl, List.map_singleton, List.append_nil]
      · intro other hother hbelow
        have hlong := (List.isPrefixOf_iff_prefix.mp hbelow).length_le
        have hshort := length_le_of_mem_around hother
        rw [List.length_append, List.length_singleton] at hlong
        omega
      · simp
  | append_singleton rest name ih =>
    rw [← List.append_assoc, around_append_singleton, around_append_singleton, List.map_cons,
      List.filter_cons_of_pos, ih, List.append_assoc]
    simp

/-- The names of the enclosing paths get fewer by one each time, until none is left. -/
lemma find?_names_enclosing {absolute : Bool} {rev : List (List Char)}
    (h : Path.Separable absolute rev) (p : Location → Bool) :
    (namesBack rev :: (Path.enclosing absolute rev).map fun path => names (partsOf path)).find? p
      = (around (namesBack rev)).find? p := by
  fun_induction Path.enclosing absolute rev with
  | case1 => rfl
  | case2 part rest ih =>
    have hrest : Path.Separable absolute (Path.settle absolute rest) :=
      h.suffix ((Path.settle_suffix _ _).trans (List.suffix_cons _ _))
    have hnext := ih hrest
    rw [namesBack_settle] at hnext
    rw [List.map_cons, names_ofReversed hrest, namesBack_settle, List.find?_cons, hnext]
    by_cases hblank : (part = [] || part = ['.']) = true
    · -- the `.` that begins a relative path: the empty path behind it leads to the same place
      rw [namesBack_cons_of_blank hblank]
      cases hp : p (namesBack rest) with
      | false => rfl
      | true => rw [← hnext, List.find?_cons, hp]
    · rw [namesBack_cons hblank, around_append_singleton, List.find?_cons]

end Tree

end CachedRoutes.Disk
