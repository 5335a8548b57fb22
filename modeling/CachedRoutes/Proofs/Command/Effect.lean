import CachedRoutes.Command.Apply
import CachedRoutes.Proofs.Disk.Tree

/-!
# What a run does to the files

A run reads all its files before it writes the first one. So every new text comes from an original
text, however often a file is listed and however its paths are spelled, and the last entry for a file
that has new text for it decides.

* **Looking around** (`gives_collect`): finding the files changes nothing.
* **Writing** (`settleAll_effect`): of the runs that lead to one file, the last with new text counts;
  every other file is as it was.
* **A whole run** (`run_rewrites_once`).
-/

namespace CachedRoutes.Command

open Disk (Tree OnTree Location Entry)

/-! ## Sessions on a tree -/

/-- On the tree the session comes to the result and leaves the other tree behind, whatever lines were
written before. -/
def Session.Gives {α : Type} (session : Session OnTree α) (tree : Tree) (result : Except Failure α)
    (after : Tree) : Prop :=
  ∀ lines, ∃ lines', (session.run.run lines).run tree = ((result, lines'), after)

namespace Session

variable {α β : Type} {tree between after : Tree}

/-- A value is given without a look at the tree. -/
lemma gives_pure (value : α) : Gives (pure value) tree (.ok value) tree :=
  fun lines => ⟨lines, rfl⟩

/-- A failure is given without a look at the tree. -/
lemma gives_throw (failure : Failure) :
    Gives (throw failure : Session OnTree α) tree (.error failure) tree :=
  fun lines => ⟨lines, rfl⟩

/-- Output leaves the tree as it is. -/
lemma gives_write (lines : List Line) : Gives (write lines) tree (.ok ()) tree :=
  fun before => ⟨before ++ lines, rfl⟩

/-- An operation of the disk gives its answer. -/
lemma gives_lift (action : OnTree α) :
    Gives (action : Session OnTree α) tree (.ok (action.run tree).1) (action.run tree).2 :=
  fun lines => ⟨lines, rfl⟩

/-- A session goes on from where its first part ended. -/
lemma run_bind (session : Session OnTree α) (next : α → Session OnTree β) (lines : List Line) :
    ((session >>= next).run.run lines).run tree
      = let first := (session.run.run lines).run tree
        (StateT.run (ExceptT.bindCont next first.1.1) first.1.2).run first.2 := rfl

/-- What follows a session starts with its value, on the tree that it leaves. -/
lemma Gives.bind {session : Session OnTree α} {next : α → Session OnTree β} {value : α}
    {result : Except Failure β} (h : Gives session tree (.ok value) between)
    (hnext : Gives (next value) between result after) :
    Gives (session >>= next) tree result after := by
  intro lines
  obtain ⟨middle, hfirst⟩ := h lines
  obtain ⟨last, hlast⟩ := hnext middle
  exact ⟨last, by rw [run_bind, hfirst]; exact hlast⟩

/-- Nothing follows a session that fails. -/
lemma Gives.bind_error {session : Session OnTree α} {failure : Failure}
    (h : Gives session tree (.error failure) after) (next : α → Session OnTree β) :
    Gives (session >>= next) tree (.error failure) after := by
  intro lines
  obtain ⟨last, hlast⟩ := h lines
  exact ⟨last, by rw [run_bind, hlast]; rfl⟩

/-- On the tree the session comes to some result and leaves the tree as it is. -/
def Looks (session : Session OnTree α) (tree : Tree) : Prop :=
  ∃ result, Gives session tree result tree

/-- A session that only looks, followed by one that only looks. -/
lemma Looks.bind {session : Session OnTree α} {next : α → Session OnTree β}
    (h : Looks session tree) (hnext : ∀ value, Looks (next value) tree) :
    Looks (session >>= next) tree := by
  obtain ⟨result, hfirst⟩ := h
  cases result with
  | error failure => exact ⟨_, hfirst.bind_error next⟩
  | ok value =>
    obtain ⟨result, hlast⟩ := hnext value
    exact ⟨result, hfirst.bind hlast⟩

end Session

namespace Apply

/-! ## Looking around -/

/-- The answer to whether there is a file, from the tree. -/
lemma gives_isFile (tree : Tree) (path : Path) :
    Session.Gives (Files.isFile (m := OnTree) path : Session OnTree Bool) tree
      (.ok ((tree.follow? true path).map Entry.kind == some .file)) tree :=
  Session.gives_lift _

/-- The answer to whether there is a directory, from the tree. -/
lemma gives_isDirectory (tree : Tree) (path : Path) :
    Session.Gives (Files.isDirectory (m := OnTree) path : Session OnTree Bool) tree
      (.ok ((tree.follow? true path).map Entry.kind == some .directory)) tree :=
  Session.gives_lift _

/-- Looking for named files finds those that are there, and changes nothing. -/
lemma gives_namedFiles (options : ApplyOptions) (root : Path) (paths : List Path) (tree : Tree) :
    Session.Gives (namedFiles options root paths) tree
      (.ok (((paths.map root.join).filter fun path =>
        (tree.follow? true path).map Entry.kind == some .file).map (RouteFile.ofPath root))) tree := by
  induction paths with
  | nil => exact Session.gives_pure _
  | cons path paths ih =>
    unfold namedFiles
    refine (gives_isFile tree _).bind ?_
    rw [List.map_cons, List.filter_cons]
    cases hfile : (tree.follow? true (root.join path)).map Entry.kind == some .file with
    | true => exact ih.bind (Session.gives_pure _)
    | false =>
      refine (Session.gives_write _).bind ?_
      exact (Session.gives_write _).bind ih

/-- Looking for all route files changes nothing. -/
lemma looks_discover (discovery : Settings.Discovery) (root : Path) (tree : Tree) :
    Session.Looks (Discovery.discover (m := OnTree) discovery root) tree := by
  unfold Discovery.discover
  refine Session.Looks.bind ⟨_, gives_isDirectory tree root⟩ ?_
  intro isRoot
  cases isRoot with
  | false => exact ⟨_, (Session.gives_throw _).bind_error _⟩
  | true =>
    refine Session.Looks.bind ⟨_, gives_isDirectory tree _⟩ ?_
    intro isApiDir
    cases isApiDir with
    | false => exact ⟨_, (Session.gives_throw _).bind_error _⟩
    | true =>
      refine Session.Looks.bind ⟨_, Session.gives_lift _⟩ ?_
      intro ownKind
      refine Session.Looks.bind ⟨_, Session.gives_lift _⟩ ?_
      intro entries
      exact ⟨_, (Session.gives_write _).bind (Session.gives_pure _)⟩

/-- The route files that a run finds on a tree. -/
def collected (options : ApplyOptions) (settings : Settings) (root : Path) (tree : Tree) :
    Except Failure (List RouteFile) :=
  (((collect options settings root : Session OnTree _).run.run []).run tree).1.1

/-- Finding the files changes nothing. -/
lemma gives_collect (options : ApplyOptions) (settings : Settings) (root : Path) (tree : Tree) :
    Session.Gives (collect options settings root) tree (collected options settings root tree)
      tree := by
  have hlooks : Session.Looks (collect (m := OnTree) options settings root) tree := by
    unfold collect
    split
    · exact looks_discover _ root tree
    · exact ⟨_, gives_namedFiles options root _ tree⟩
  obtain ⟨result, hgives⟩ := hlooks
  obtain ⟨lines, hrun⟩ := hgives []
  have hresult : collected options settings root tree = result := by
    unfold collected
    rw [hrun]
  rwa [hresult]

/-- Of the named files those are found that are there, in the order of their names. -/
lemma collected_of_paths {options : ApplyOptions} (h : options.paths.isEmpty = false)
    (settings : Settings) (root : Path) (tree : Tree) :
    collected options settings root tree
      = .ok (((options.paths.map root.join).filter fun path =>
          (tree.follow? true path).map Entry.kind == some .file).map (RouteFile.ofPath root)) := by
  obtain ⟨lines, hrun⟩ := gives_namedFiles options root options.paths tree []
  unfold collected collect
  rw [h]
  exact congrArg (fun answered => answered.1.1) hrun

/-! ## Reading and writing -/

/-- Reading gives what is on the tree. -/
lemma run_loadAll_onTree (files : List RouteFile) (tree : Tree) :
    (loadAll files : OnTree _).run tree
      = (files.map fun file => { file, content := tree.read file.path }, tree) := by
  induction files with
  | nil => rfl
  | cons file files ih =>
    have hcons : (loadAll (file :: files) : OnTree _).run tree
        = let rest := (loadAll files : OnTree _).run tree
          ({ file, content := tree.read file.path } :: rest.1, rest.2) := rfl
    rw [hcons, ih, List.map_cons]

/-- Without writing nothing changes. -/
lemma run_settleAll_false (processed : List Processed) (tree : Tree) :
    ((settleAll false processed : OnTree _).run tree).2 = tree := by
  induction processed with
  | nil => rfl
  | cons first processed ih => exact ih

/-- A run without new text is not written. -/
lemma run_settleAll_none {first : Processed} (h : first.outcome.content = none)
    (processed : List Processed) (tree : Tree) :
    ((settleAll true (first :: processed) : OnTree _).run tree).2
      = ((settleAll true processed : OnTree _).run tree).2 := by
  obtain ⟨file, ⟨route, result, reason, policy, content, notes⟩⟩ := first
  obtain rfl : content = none := h
  rfl

/-- A run with new text is written to the file that its path leads to. -/
lemma run_settleAll_some {first : Processed} {text : List Char} {location : Location} {tree : Tree}
    (h : first.outcome.content = some text) (hfile : tree.fileAt? first.file.path = some location)
    (processed : List Processed) :
    ((settleAll true (first :: processed) : OnTree _).run tree).2
      = ((settleAll true processed : OnTree _).run
          (tree.set location (.file (String.ofList text).toUTF8))).2 := by
  have hwrite : (Files.write first.file.path (String.ofList text) : OnTree _).run tree
      = (.ok (), tree.set location (.file (String.ofList text).toUTF8)) := by
    change Disk.OnTree.attempt (fun tree => tree.write first.file.path (String.ofList text)) tree = _
    unfold Disk.OnTree.attempt
    dsimp only
    rw [Tree.write_eq hfile]
  obtain ⟨file, ⟨route, result, reason, policy, content, notes⟩⟩ := first
  obtain rfl : content = some text := h
  have hcons : ((settleAll true (⟨file, ⟨route, result, reason, policy, some text, notes⟩⟩
      :: processed) : OnTree _).run tree).2
      = ((settleAll true processed : OnTree _).run
          ((Files.write file.path (String.ofList text) : OnTree _).run tree).2).2 := rfl
  rw [hcons, hwrite]

/-- Of the runs that lead to one file the last with new text counts, and a file without such a run
stays as it was. -/
lemma settleAll_effect (processed : List Processed) (tree : Tree)
    (hfiles : ∀ entry ∈ processed, (tree.fileAt? entry.file.path).isSome = true) :
    let after := ((settleAll true processed : OnTree _).run tree).2
    Tree.SameShape tree after ∧
      (∀ before entry later location text, processed = before ++ entry :: later →
        tree.fileAt? entry.file.path = some location → entry.outcome.content = some text →
        (∀ other ∈ later, tree.fileAt? other.file.path = some location →
          other.outcome.content = none) →
        after.lookup? location = some (.file (String.ofList text).toUTF8)) ∧
      ∀ location, (∀ entry ∈ processed, tree.fileAt? entry.file.path = some location →
        entry.outcome.content = none) → after.lookup? location = tree.lookup? location := by
  induction processed generalizing tree with
  | nil =>
    refine ⟨Tree.SameShape.refl tree, ?_, fun _ _ => rfl⟩
    intro before entry later location text hsplit
    simp at hsplit
  | cons first processed ih =>
    intro after
    cases hcontent : first.outcome.content with
    | none =>
      have hafter : after = ((settleAll true processed : OnTree _).run tree).2 :=
        run_settleAll_none hcontent processed tree
      obtain ⟨hshape, hlast, hkept⟩ := ih tree fun entry hmem =>
        hfiles entry (List.mem_cons_of_mem _ hmem)
      rw [← hafter] at hshape hlast hkept
      refine ⟨hshape, ?_, ?_⟩
      · intro before entry later location text hsplit hfile htext hlater
        rcases List.cons_eq_append_iff.mp hsplit with ⟨rfl, hhere⟩ | ⟨rest, rfl, hrest⟩
        · obtain ⟨rfl, rfl⟩ := List.cons.inj hhere
          rw [hcontent] at htext
          cases htext
        · exact hlast rest entry later location text hrest hfile htext hlater
      · intro location hnone
        exact hkept location fun entry hmem => hnone entry (List.mem_cons_of_mem _ hmem)
    | some new =>
      obtain ⟨place, hplace⟩ := Option.isSome_iff_exists.mp (hfiles first List.mem_cons_self)
      obtain ⟨bytes, -, hbytes⟩ := Tree.fileAt?_eq_some hplace
      have hstep := Tree.set_sameShape hbytes (String.ofList new).toUTF8
      have hsame := Tree.fileAt?_eq hstep
      have hafter : after = _ := run_settleAll_some hcontent hplace processed
      obtain ⟨hshape, hlast, hkept⟩ := ih (tree.set place (.file (String.ofList new).toUTF8))
        fun entry hmem => by
          rw [hsame]
          exact hfiles entry (List.mem_cons_of_mem _ hmem)
      rw [← hafter] at hshape hlast hkept
      simp only [hsame] at hlast hkept
      refine ⟨hstep.trans hshape, ?_, ?_⟩
      · intro before entry later location text hsplit hfile htext hlater
        rcases List.cons_eq_append_iff.mp hsplit with ⟨rfl, hhere⟩ | ⟨rest, rfl, hrest⟩
        · obtain ⟨rfl, rfl⟩ := List.cons.inj hhere
          obtain rfl : place = location := Option.some.inj (hplace.symm.trans hfile)
          obtain rfl : new = text := Option.some.inj (hcontent.symm.trans htext)
          rw [hkept place hlater]
          exact Tree.lookup?_set_self tree _ (Tree.ne_nil_of_file hbytes)
        · exact hlast rest entry later location text hrest hfile htext hlater
      · intro location hnone
        have hother : location ≠ place := by
          rintro rfl
          rw [hnone first List.mem_cons_self hplace] at hcontent
          cases hcontent
        rw [hkept location fun entry hmem => hnone entry (List.mem_cons_of_mem _ hmem)]
        exact Tree.lookup?_set_of_ne tree _ hother

/-! ## A whole run -/

/-- The tree after a run on the given entries: a file has the new text of the last entry for it that
has one, made from the original text, and everything else is as it was. -/
structure RewritesOnce (codemod : Codemod) (files : List RouteFile) (tree after : Tree) : Prop where
  /-- No file comes or goes, and directories and links stay. -/
  sameShape : Tree.SameShape tree after
  /-- The last entry that has new text for a file decides. -/
  rewritten : ∀ before file later location text new, files = before ++ file :: later →
    tree.fileAt? file.path = some location → tree.textAt? location = some text →
    (codemod.run file.route text.toList).content = some new →
    (∀ other ∈ later, tree.fileAt? other.path = some location →
      (codemod.run other.route text.toList).content = none) →
    after.lookup? location = some (.file (String.ofList new).toUTF8)
  /-- What no entry has new text for stays as it is, also if it cannot be read or is no text. -/
  kept : ∀ location, (∀ file ∈ files, ∀ text, tree.fileAt? file.path = some location →
    tree.textAt? location = some text → (codemod.run file.route text.toList).content = none) →
    after.lookup? location = tree.lookup? location

/-- The runs on files, from what is on the tree. -/
def processedOn (codemod : Codemod) (tree : Tree) (files : List RouteFile) : List Processed :=
  process codemod (files.map fun file => { file, content := tree.read file.path })

section Processed

variable {codemod : Codemod} {tree : Tree}

/-- Files are processed one after the other. -/
lemma processedOn_append (before later : List RouteFile) :
    processedOn codemod tree (before ++ later)
      = processedOn codemod tree before ++ processedOn codemod tree later := by
  unfold processedOn process
  rw [List.map_append, List.filterMap_append]

/-- A file that can be read is processed from its text. -/
lemma processedOn_cons_of_ok {file : RouteFile} {text : String}
    (h : tree.read file.path = .ok text) (files : List RouteFile) :
    processedOn codemod tree (file :: files)
      = { file, outcome := codemod.run file.route text.toList }
        :: processedOn codemod tree files := by
  unfold processedOn process
  rw [List.map_cons, List.filterMap_cons_some]
  rw [h]

/-- Every run is on the text of a file that an entry leads to. -/
lemma exists_of_mem_processedOn {files : List RouteFile} {entry : Processed}
    (h : entry ∈ processedOn codemod tree files) :
    entry.file ∈ files ∧ ∃ location text, tree.fileAt? entry.file.path = some location ∧
      tree.textAt? location = some text ∧
      entry.outcome = codemod.run entry.file.route text.toList := by
  unfold processedOn process at h
  obtain ⟨loaded, hloaded, hentry⟩ := List.mem_filterMap.mp h
  obtain ⟨file, hfile, rfl⟩ := List.mem_map.mp hloaded
  cases hread : tree.read file.path with
  | error fault =>
    rw [hread] at hentry
    cases hentry
  | ok text =>
    rw [hread] at hentry
    obtain rfl := Option.some.inj hentry
    obtain ⟨location, hat, htext⟩ := Tree.read_eq_ok_iff.mp hread
    exact ⟨hfile, location, text, hat, htext, rfl⟩

/-- Writing all runs rewrites every file once. -/
lemma rewritesOnce_settleAll (codemod : Codemod) (tree : Tree) (files : List RouteFile) :
    RewritesOnce codemod files tree
      ((settleAll true (processedOn codemod tree files) : OnTree _).run tree).2 := by
  obtain ⟨hshape, hlast, hkept⟩ := settleAll_effect (processedOn codemod tree files) tree
    fun entry hmem => by
      obtain ⟨-, location, text, hat, -⟩ := exists_of_mem_processedOn hmem
      rw [hat]
      rfl
  refine ⟨hshape, ?_, ?_⟩
  · intro before file later location text new hsplit hat htext hnew hlater
    have hread : tree.read file.path = .ok text := Tree.read_eq_ok_iff.mpr ⟨location, hat, htext⟩
    refine hlast (processedOn codemod tree before)
      { file, outcome := codemod.run file.route text.toList } (processedOn codemod tree later)
      location new ?_ hat hnew ?_
    · rw [hsplit, processedOn_append, processedOn_cons_of_ok hread]
    · intro other hmem hother
      obtain ⟨hlisted, place, found, hplace, hfound, houtcome⟩ := exists_of_mem_processedOn hmem
      obtain rfl : place = location := Option.some.inj (hplace.symm.trans hother)
      obtain rfl : found = text := Option.some.inj (hfound.symm.trans htext)
      rw [houtcome]
      exact hlater other.file hlisted hother
  · intro location hnone
    refine hkept location ?_
    intro entry hmem hat
    obtain ⟨hlisted, place, text, hplace, htext, houtcome⟩ := exists_of_mem_processedOn hmem
    obtain rfl : place = location := Option.some.inj (hplace.symm.trans hat)
    rw [houtcome]
    exact hnone entry.file hlisted text hat htext

end Processed

/-- Where no run has new text, nothing is to be rewritten. -/
lemma rewritesOnce_of_pending_eq_zero {codemod : Codemod} {tree : Tree} {files : List RouteFile}
    (h : pending (processedOn codemod tree files) = 0) :
    RewritesOnce codemod files tree tree := by
  have hnone : ∀ before file later location text, files = before ++ file :: later →
      tree.fileAt? file.path = some location → tree.textAt? location = some text →
      (codemod.run file.route text.toList).content = none := by
    intro before file later location text hsplit hat htext
    have hread : tree.read file.path = .ok text := Tree.read_eq_ok_iff.mpr ⟨location, hat, htext⟩
    have hmem : ({ file, outcome := codemod.run file.route text.toList } : Processed)
        ∈ processedOn codemod tree files := by
      rw [hsplit, processedOn_append, processedOn_cons_of_ok hread]
      simp
    have hunchanged := List.filter_eq_nil_iff.mp (List.length_eq_zero_iff.mp h) _ hmem
    simpa [Outcome.changed] using hunchanged
  refine ⟨Tree.SameShape.refl tree, ?_, fun _ _ => rfl⟩
  intro before file later location text new hsplit hat htext hnew
  rw [hnone before file later location text hsplit hat htext] at hnew
  cases hnew

/-- A batch rewrites every file once, and nothing in a dry run. -/
lemma batch_effect (codemod : Codemod) (dryRun : Bool) (files : List RouteFile) (tree : Tree) :
    let after := ((batch codemod dryRun files : OnTree _).run tree).2
    (dryRun = true → after = tree) ∧ (dryRun = false → RewritesOnce codemod files tree after) := by
  have hbatch : ((batch codemod dryRun files : OnTree _).run tree).2
      = ((settleAll (!dryRun && pending (processedOn codemod tree files) > 0)
          (processedOn codemod tree files) : OnTree _).run tree).2 := by
    have hload := run_loadAll_onTree files tree
    have hsplit : ((batch codemod dryRun files : OnTree _).run tree).2
        = let read := (loadAll files : OnTree _).run tree
          let processed := process codemod read.1
          ((settleAll (!dryRun && pending processed > 0) processed : OnTree _).run read.2).2 := rfl
    rw [hsplit, hload]
    rfl
  intro after
  refine ⟨?_, ?_⟩
  · rintro rfl
    exact hbatch.trans (run_settleAll_false _ tree)
  · rintro rfl
    by_cases hpending : pending (processedOn codemod tree files) = 0
    · have hafter : after = tree := by
        refine hbatch.trans ?_
        rw [hpending]
        exact run_settleAll_false _ tree
      rw [hafter]
      exact rewritesOnce_of_pending_eq_zero hpending
    · have hwrite : (!false && decide (pending (processedOn codemod tree files) > 0)) = true := by
        simpa using Nat.pos_of_ne_zero hpending
      have hafter : after = _ := hbatch
      rw [hafter, hwrite]
      exact rewritesOnce_settleAll codemod tree files

/-- What a run sets out to do: the codemod and the files that it finds, if there is nothing wrong with
root, settings and directories. -/
def plan (options : ApplyOptions) (settings : Settings) (workingDirectory : Path) (tree : Tree) :
    Except Failure (Codemod × List RouteFile) :=
  let root := options.root.getD workingDirectory
  if (tree.follow? true root).map Entry.kind == some .directory then
    match codemodFor options settings with
    | .ok codemod => (collected options settings root tree).map fun files => (codemod, files)
    | .error flaw => .error (.invalidPolicy flaw)
  else .error (.rootNotFound root)

/-- A run fails where its plan does, and otherwise does what its batch does. -/
lemma gives_run (options : ApplyOptions) (settings : Settings) (workingDirectory : Path)
    (now : Timestamp) (tree : Tree) :
    (∀ failure, plan options settings workingDirectory tree = .error failure →
      Session.Gives (run options settings workingDirectory now) tree (.error failure) tree) ∧
    ∀ codemod files, plan options settings workingDirectory tree = .ok (codemod, files) →
      Session.Gives (run options settings workingDirectory now) tree (.ok ())
        ((batch codemod options.dryRun files : OnTree _).run tree).2 := by
  unfold plan run
  have hisRoot := gives_isDirectory tree (options.root.getD workingDirectory)
  have hcollect := gives_collect options settings (options.root.getD workingDirectory) tree
  dsimp only
  cases hroot : (tree.follow? true (options.root.getD workingDirectory)).map Entry.kind
      == some .directory with
  | false =>
    rw [hroot] at hisRoot
    refine ⟨?_, fun codemod files h => by cases h⟩
    rintro failure ⟨⟩
    exact hisRoot.bind ((Session.gives_throw _).bind_error _)
  | true =>
    rw [hroot] at hisRoot
    cases hcodemod : codemodFor options settings with
    | error flaw =>
      refine ⟨?_, fun codemod files h => by cases h⟩
      rintro failure ⟨⟩
      exact hisRoot.bind ((Session.gives_throw _).bind_error _)
    | ok codemod =>
      cases hfiles : collected options settings (options.root.getD workingDirectory) tree with
      | error stop =>
        rw [hfiles] at hcollect
        refine ⟨?_, fun codemod files h => by cases h⟩
        rintro failure ⟨⟩
        refine hisRoot.bind ((Session.gives_pure _).bind ?_)
        exact (Session.gives_write _).bind (hcollect.bind_error _)
      | ok found =>
        rw [hfiles] at hcollect
        refine ⟨fun failure h => (by cases h), ?_⟩
        rintro codemod files ⟨⟩
        refine hisRoot.bind ((Session.gives_pure _).bind ?_)
        refine (Session.gives_write _).bind (hcollect.bind ?_)
        refine (Session.gives_write _).bind ?_
        exact (Session.gives_lift _).bind (Session.gives_write _)

/-- **A run rewrites every file once.** For all options, settings and file trees, with paths that are
given or found, a run without a terminal does this to the files. If it cannot start, it fails and
changes nothing. If it can, it comes to its end; in a dry run nothing changes, and otherwise the tree
is as `RewritesOnce` says. -/
theorem run_rewrites_once (options : ApplyOptions) (settings : Settings) (workingDirectory : Path)
    (now : Timestamp) (tree : Tree) :
    (∀ failure, plan options settings workingDirectory tree = .error failure →
      Session.Gives (run options settings workingDirectory now) tree (.error failure) tree) ∧
    ∀ codemod files, plan options settings workingDirectory tree = .ok (codemod, files) →
      ∃ after, Session.Gives (run options settings workingDirectory now) tree (.ok ()) after ∧
        (options.dryRun = true → after = tree) ∧
        (options.dryRun = false → RewritesOnce codemod files tree after) := by
  obtain ⟨hfails, hends⟩ := gives_run options settings workingDirectory now tree
  refine ⟨hfails, ?_⟩
  intro codemod files hplan
  exact ⟨_, hends codemod files hplan, batch_effect codemod options.dryRun files tree⟩

/-- A file is named once itself and once through a link. What it ends up with is the new text of the
second entry, made from the original text. -/
theorem run_rewrites_once_linked :
    let settings : Settings := { policy := { durations := [], tags := [], routes := [] } }
    let options : ApplyOptions := { paths := [⟨"a.ts"⟩, ⟨"b.ts"⟩] }
    let text := "import a from 'next/server'\nexport function GET() \x7b\n"
      ++ "const \x7b data \x7d = await supabase.from('a').select()\n\x7d\n"
    let tree : Tree :=
      { entries := [(["a.ts"], .file text.toUTF8), (["b.ts"], .link ⟨"a.ts"⟩)]
        workingDirectory := [] }
    ∃ codemod files after new, plan options settings ⟨"/"⟩ tree = .ok (codemod, files) ∧
      files.map (·.route.text) = ["a.ts", "b.ts"] ∧
      Session.Gives (run options settings ⟨"/"⟩ ⟨0, 0⟩) tree (.ok ()) after ∧
      (codemod.run ⟨"b.ts"⟩ text.toList).content = some new ∧
      after.lookup? ["a.ts"] = some (.file (String.ofList new).toUTF8) := by
  intro settings options text tree
  have hparts : Tree.partsOf ⟨"/"⟩ = [""] ∧ Tree.partsOf ⟨"a.ts"⟩ = ["a.ts"] ∧
      Tree.partsOf ⟨"/a.ts"⟩ = ["a.ts"] ∧ Tree.partsOf ⟨"/b.ts"⟩ = ["b.ts"] := by decide +kernel
  have habsolute : Path.isAbsolute ⟨"/"⟩ = true ∧ Path.isAbsolute ⟨"a.ts"⟩ = false ∧
      Path.isAbsolute ⟨"/a.ts"⟩ = true ∧ Path.isAbsolute ⟨"/b.ts"⟩ = true := by decide +kernel
  have hroot : tree.target? true ⟨"/"⟩ = some (.found [] .directory) := by
    simp [Tree.target?, Tree.lead?, Tree.walk, Tree.lookup?, hparts, habsolute, Entry.isDirectory]
  have ha : tree.target? true ⟨"/a.ts"⟩ = some (.found ["a.ts"] (.file text.toUTF8)) := by
    simp [tree, Tree.target?, Tree.lead?, Tree.walk, Tree.lookup?, hparts, habsolute,
      Entry.isDirectory]
  have hb : tree.target? true ⟨"/b.ts"⟩ = some (.found ["a.ts"] (.file text.toUTF8)) := by
    simp [tree, Tree.target?, Tree.lead?, Tree.walk, Tree.lookup?, hparts, habsolute,
      Entry.isDirectory, Tree.linkLimit]
  let files : List RouteFile := [⟨⟨"a.ts"⟩, ⟨"/a.ts"⟩⟩, ⟨⟨"b.ts"⟩, ⟨"/b.ts"⟩⟩]
  have hfiles : collected options settings ⟨"/"⟩ tree = .ok files := by
    have hjoin : options.paths.map (Path.join ⟨"/"⟩) = [⟨"/a.ts"⟩, ⟨"/b.ts"⟩] := by decide +kernel
    have hofPath : [RouteFile.ofPath ⟨"/"⟩ ⟨"/a.ts"⟩, RouteFile.ofPath ⟨"/"⟩ ⟨"/b.ts"⟩] = files := by
      decide +kernel
    rw [collected_of_paths rfl, hjoin]
    simpa [Tree.follow?, ha, hb, Entry.kind] using hofPath
  have hcodemod : ((codemodFor options settings).toOption.any fun codemod =>
      (codemod.run ⟨"b.ts"⟩ text.toList).content.isSome) = true := by
    rw [String.toList_append, String.toList_ofList, String.toList_ofList]
    decide +kernel
  cases hfor : codemodFor options settings with
  | error flaw =>
    rw [hfor] at hcodemod
    cases hcodemod
  | ok codemod =>
    rw [hfor] at hcodemod
    obtain ⟨new, hnew⟩ := Option.isSome_iff_exists.mp hcodemod
    have hplan : plan options settings ⟨"/"⟩ tree = .ok (codemod, files) := by
      have hdirectory : (tree.follow? true ⟨"/"⟩).map Entry.kind = some .directory := by
        rw [Tree.follow?, hroot]
        rfl
      unfold plan
      dsimp only
      rw [show options.root.getD ⟨"/"⟩ = ⟨"/"⟩ from rfl, hdirectory, hfor, hfiles]
      rfl
    obtain ⟨after, hgives, -, hrewrites⟩ :=
      (run_rewrites_once options settings ⟨"/"⟩ ⟨0, 0⟩ tree).2 codemod files hplan
    refine ⟨codemod, files, after, new, hplan, rfl, hgives, hnew, ?_⟩
    refine (hrewrites rfl).rewritten [⟨⟨"a.ts"⟩, ⟨"/a.ts"⟩⟩] ⟨⟨"b.ts"⟩, ⟨"/b.ts"⟩⟩ [] ["a.ts"] text new
      rfl ?_ ?_ hnew (by simp)
    · rw [Tree.fileAt?, hb]
      rfl
    · have htext : String.fromUTF8? text.toUTF8 = some text := by
        rw [String.toUTF8_eq_toByteArray, String.fromUTF8?, dif_pos text.isValidUTF8]
        rfl
      exact htext

end Apply

end CachedRoutes.Command
