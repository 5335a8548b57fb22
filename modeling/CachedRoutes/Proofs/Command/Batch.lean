import CachedRoutes.Command.Apply
import CachedRoutes.Proofs.Disk.Recorded
import CachedRoutes.Proofs.Report.Summary

/-!
# Every file of a batch settles once

A batch reads all its files and then writes those that change. Here it runs on any disk whatever,
which may refuse any read and any write, and the disk keeps a record of both.

* **Reading** (`run_loadAll`) asks for each file once and writes nothing.
* **Writing** (`run_settleAll`) takes the runs one after the other, asks for each new text once, and
  reads nothing.
* **Joining the two** (`Joins`): every file has a course of its own, from the answer to its reading to
  its end in the report or among the failures.
* **One course** (`Joins.settles`): it fails exactly if its reading or its writing was refused, and
  otherwise reports the run of the codemod on the text that was read.
* **The account** (`batch_settles_once`): summary, reports, failures and record are made up of the
  courses, with nothing counted twice and nothing lost.
-/

namespace CachedRoutes.Command.Apply

open Disk (Access Recorded)

/-- The course of one file through a batch. -/
structure Course where
  file : RouteFile
  /-- What the disk answered when the file was read. -/
  content : Except AccessFault String
  /-- The text that the file was to get, with what the disk answered, if it was asked. -/
  attempt : Option (String × Except AccessFault Unit)
  /-- The item in the report, or why there is none. -/
  ending : Except AccessFault Settled

namespace Course

/-- The access that reads the file. -/
def reading (course : Course) : Access :=
  .read course.file.path course.content

/-- The access that writes the file, if there is one. -/
def writing? (course : Course) : Option Access :=
  course.attempt.map fun attempt => .write course.file.path attempt.1 attempt.2

/-- The item in the report. -/
def report? (course : Course) : Option Settled :=
  course.ending.toOption

/-- The step of the summary for the file. -/
def step (course : Course) : Summary.Step :=
  match course.ending with
  | .ok entry => .counted course.file.route entry.processed.outcome.result
  | .error _ => .failed course.file.route

/-- The route, if the file failed. -/
def failedRoute? (course : Course) : Option Route :=
  course.step.failedRoute?

/-- What the course of a file comes to, by the answers of the disk. -/
structure Settles (codemod : Codemod) (dryRun : Bool) (course : Course) : Prop where
  /-- The new text of the run on what was read is to be written, and nothing else, unless it is a dry
  run. -/
  attempt_iff : ∀ new, (∃ answer, course.attempt = some (new, answer)) ↔
    dryRun = false ∧ ∃ text, course.content = .ok text ∧
      (codemod.run course.file.route text.toList).content.map String.ofList = some new
  /-- The file failed exactly if it could not be read or could not be written, and for that reason. -/
  error_iff : ∀ fault, course.ending = .error fault ↔
    course.content = .error fault ∨ ∃ new, course.attempt = some (new, .error fault)
  /-- A report is about the run on what was read, and says that the file was written if it was. -/
  report : ∀ entry, course.ending = .ok entry →
    (∃ text, course.content = .ok text ∧ entry.processed
      = { file := course.file, outcome := codemod.run course.file.route text.toList }) ∧
    (entry.written = true ↔ ∃ new, course.attempt = some (new, .ok ()))

end Course

/-- The files of a batch settled once each, on the given courses. -/
structure SettlesOnce (codemod : Codemod) (dryRun : Bool) (files : List RouteFile)
    (summary : Summary) (reports : List Settled) (record : List Access) (courses : List Course) :
    Prop where
  /-- Every file has its course. -/
  files_eq : courses.map (·.file) = files
  /-- All files are read first, each once; then those are written that are to be, each once; and
  there is no other access. -/
  record_eq : courses.map Course.reading ++ courses.filterMap Course.writing? = record
  /-- Every course comes to what the disk answered on it. -/
  settles : ∀ course ∈ courses, course.Settles codemod dryRun
  /-- Nothing else is reported, and everything at most once. -/
  reports_eq : courses.filterMap Course.report? = reports
  /-- Nothing else failed, and everything at most once. -/
  failed_perm : summary.failed.Perm (courses.filterMap Course.failedRoute?)
  total_eq : summary.total = files.length
  count_eq : ∀ result, summary.count result
    = reports.countP fun entry => entry.processed.outcome.result == result
  errors_eq : summary.errors = (courses.filterMap Course.failedRoute?).length
  /-- There are as many errors as accesses that were refused. -/
  errors_refused : summary.errors = record.countP Access.refused

/-! ## The two loops -/

/-- The access that read the file. -/
def Loaded.reading (loaded : Loaded) : Access :=
  .read loaded.file.path loaded.content

/-- The text that the file of a run was to get, with what the disk answered, if it was asked. -/
def Settled.attempt? (settled : Settled) : Option (String × Except AccessFault Unit) :=
  settled.answer.bind fun answer =>
    settled.processed.outcome.content.map fun text => (String.ofList text, answer)

/-- The access that wrote the file of a run, if there is one. -/
def Settled.writing? (settled : Settled) : Option Access :=
  settled.attempt?.map fun attempt => .write settled.processed.file.path attempt.1 attempt.2

section Loops

variable {σ : Type} [Files (StateM σ)]

/-- Reading asks for each file once, in order, and writes nothing. -/
lemma run_loadAll (files : List RouteFile) (record : List Access) (disk : σ) :
    ∃ loaded after, ((loadAll files : Recorded (StateM σ) _).run record).run disk
        = ((loaded, record ++ loaded.map Loaded.reading), after) ∧
      loaded.map (·.file) = files := by
  induction files generalizing record disk with
  | nil => exact ⟨[], disk, by rw [List.map_nil, List.append_nil]; rfl, rfl⟩
  | cons file files ih =>
    let read := (Files.read file.path : StateM σ _).run disk
    obtain ⟨loaded, after, hrun, hfiles⟩ := ih (record ++ [.read file.path read.1]) read.2
    have hcons : ((loadAll (file :: files) : Recorded (StateM σ) _).run record).run disk
        = let rest := ((loadAll files : Recorded (StateM σ) _).run
            (record ++ [.read file.path read.1])).run read.2
          (({ file, content := read.1 } :: rest.1.1, rest.1.2), rest.2) := rfl
    refine ⟨{ file, content := read.1 } :: loaded, after, ?_, ?_⟩
    · rw [hcons, hrun, List.map_cons, List.append_assoc]
      rfl
    · rw [List.map_cons, hfiles]

/-- A run that is not written leaves disk and record alone. -/
lemma run_settleAll_skip {write : Bool} {first : Processed}
    (h : write = false ∨ first.outcome.content = none) (processed : List Processed)
    (record : List Access) (disk : σ) :
    ((settleAll write (first :: processed) : Recorded (StateM σ) _).run record).run disk
      = let rest := ((settleAll write processed : Recorded (StateM σ) _).run record).run disk
        (({ processed := first, answer := none } :: rest.1.1, rest.1.2), rest.2) := by
  rcases h with rfl | hcontent
  · rfl
  · obtain ⟨file, ⟨route, result, reason, policy, content, notes⟩⟩ := first
    obtain rfl : content = none := hcontent
    cases write <;> rfl

/-- A run that is written is recorded with the answer that it gets. -/
lemma run_settleAll_write {first : Processed} {text : List Char}
    (h : first.outcome.content = some text) (processed : List Processed) (record : List Access)
    (disk : σ) :
    ((settleAll true (first :: processed) : Recorded (StateM σ) _).run record).run disk
      = let path := first.file.path
        let written := (Files.write path (String.ofList text) : StateM σ _).run disk
        let record := record ++ [.write path (String.ofList text) written.1]
        let rest := ((settleAll true processed : Recorded (StateM σ) _).run record).run written.2
        (({ processed := first, answer := some written.1 } :: rest.1.1, rest.1.2), rest.2) := by
  obtain ⟨file, ⟨route, result, reason, policy, content, notes⟩⟩ := first
  obtain rfl : content = some text := h
  rfl

/-- Writing takes the runs one after the other, and asks for those that change their file. -/
lemma run_settleAll (write : Bool) (processed : List Processed) (record : List Access) (disk : σ) :
    ∃ settled after, ((settleAll write processed : Recorded (StateM σ) _).run record).run disk
        = ((settled, record ++ settled.filterMap Settled.writing?), after) ∧
      settled.map (·.processed) = processed ∧
      ∀ entry ∈ settled,
        entry.answer.isSome = (write && entry.processed.outcome.content.isSome) := by
  induction processed generalizing record disk with
  | nil => exact ⟨[], disk, by rw [List.filterMap_nil, List.append_nil]; rfl, rfl, by simp⟩
  | cons first processed ih =>
    by_cases hskip : write = false ∨ first.outcome.content = none
    · obtain ⟨settled, after, hrun, hprocessed, hasked⟩ := ih record disk
      refine ⟨{ processed := first, answer := none } :: settled, after, ?_, ?_, ?_⟩
      · rw [run_settleAll_skip hskip, hrun, List.filterMap_cons_none rfl]
      · rw [List.map_cons, hprocessed]
      · rw [List.forall_mem_cons]
        exact ⟨by rcases hskip with rfl | hnone <;> simp_all, hasked⟩
    · obtain ⟨hwrite, hsome⟩ := not_or.mp hskip
      obtain rfl : write = true := by simpa using hwrite
      obtain ⟨text, htext⟩ := Option.ne_none_iff_exists'.mp hsome
      let written := (Files.write first.file.path (String.ofList text) : StateM σ _).run disk
      obtain ⟨settled, after, hrun, hprocessed, hasked⟩ :=
        ih (record ++ [.write first.file.path (String.ofList text) written.1]) written.2
      have hwriting : Settled.writing? { processed := first, answer := some written.1 }
          = some (.write first.file.path (String.ofList text) written.1) := by
        unfold Settled.writing? Settled.attempt?
        rw [Option.bind_some, htext]
        rfl
      refine ⟨{ processed := first, answer := some written.1 } :: settled, after, ?_, ?_, ?_⟩
      · rw [run_settleAll_write htext]
        dsimp only
        rw [hrun, List.filterMap_cons_some hwriting, List.append_assoc]
        rfl
      · rw [List.map_cons, hprocessed]
      · rw [List.forall_mem_cons]
        exact ⟨by simp [htext], hasked⟩

/-- Where a run has new text, there is something to write. -/
lemma pending_pos {processed : List Processed} {entry : Processed} (hmem : entry ∈ processed)
    (h : entry.outcome.content.isSome = true) : 0 < pending processed :=
  List.length_pos_of_mem (List.mem_filter.mpr ⟨hmem, h⟩)

/-- A batch reads and then writes, and the record holds what was asked for. -/
lemma run_batch (codemod : Codemod) (dryRun : Bool) (files : List RouteFile) (disk : σ) :
    ∃ (batch : Batch) (after : σ),
      ((Apply.batch codemod dryRun files : Recorded (StateM σ) _).run []).run disk
        = ((batch, batch.loaded.map Loaded.reading ++ batch.settled.filterMap Settled.writing?),
            after) ∧
      batch.loaded.map (·.file) = files ∧
      batch.settled.map (·.processed) = process codemod batch.loaded ∧
      ∀ entry ∈ batch.settled,
        entry.answer.isSome = (!dryRun && entry.processed.outcome.content.isSome) := by
  obtain ⟨loaded, middle, hload, hfiles⟩ := run_loadAll files [] disk
  obtain ⟨settled, after, hsettle, hprocessed, hasked⟩ :=
    run_settleAll (!dryRun && pending (process codemod loaded) > 0) (process codemod loaded)
      (loaded.map Loaded.reading) middle
  have hbatch : ((Apply.batch codemod dryRun files : Recorded (StateM σ) _).run []).run disk
      = let read := ((loadAll files : Recorded (StateM σ) _).run []).run disk
        let processed := process codemod read.1.1
        let rest := ((settleAll (!dryRun && pending processed > 0) processed
          : Recorded (StateM σ) _).run read.1.2).run read.2
        (({ loaded := read.1.1, processed, settled := rest.1.1 }, rest.1.2), rest.2) := rfl
  refine ⟨{ loaded, processed := process codemod loaded, settled }, after, ?_, hfiles, hprocessed,
    ?_⟩
  · rw [hbatch, hload, List.nil_append]
    dsimp only
    rw [hsettle]
  · intro entry hmem
    have hprocess : entry.processed ∈ process codemod loaded :=
      hprocessed ▸ List.mem_map_of_mem hmem
    rw [hasked entry hmem]
    cases hcontent : entry.processed.outcome.content.isSome with
    | false => simp
    | true => simp [pending_pos hprocess hcontent]

end Loops

/-! ## Joining the two loops -/

/-- The end of a run. -/
def Settled.ending (settled : Settled) : Except AccessFault Settled :=
  match settled.fault? with
  | some fault => .error fault
  | none => .ok settled

/-- The course of a file that could be read. -/
def Settled.course (settled : Settled) (text : String) : Course where
  file := settled.processed.file
  content := .ok text
  attempt := settled.attempt?
  ending := settled.ending

/-- The courses of files, from what was read and what became of those that could be. -/
inductive Joins (codemod : Codemod) (dryRun : Bool) :
    List Loaded → List Settled → List Course → Prop where
  | nil : Joins codemod dryRun [] [] []
  /-- A file that could not be read is not settled. -/
  | unread {file : RouteFile} {fault : AccessFault} {loaded : List Loaded} {settled : List Settled}
      {courses : List Course} (rest : Joins codemod dryRun loaded settled courses) :
      Joins codemod dryRun ({ file, content := .error fault } :: loaded) settled
        ({ file, content := .error fault, attempt := none, ending := .error fault } :: courses)
  /-- A file that could be read is settled next, and the disk is asked to write it if it changes,
  unless it is a dry run. -/
  | settled {text : String} {entry : Settled} {loaded : List Loaded} {settled : List Settled}
      {courses : List Course}
      (outcome : entry.processed.outcome = codemod.run entry.processed.file.route text.toList)
      (asked : entry.answer.isSome = (!dryRun && entry.processed.outcome.content.isSome))
      (rest : Joins codemod dryRun loaded settled courses) :
      Joins codemod dryRun ({ file := entry.processed.file, content := .ok text } :: loaded)
        (entry :: settled) (entry.course text :: courses)

/-- What the two loops leave behind can be joined. -/
lemma exists_joins {codemod : Codemod} {dryRun : Bool} {loaded : List Loaded}
    {settled : List Settled} (h : settled.map (·.processed) = process codemod loaded)
    (hasked : ∀ entry ∈ settled,
      entry.answer.isSome = (!dryRun && entry.processed.outcome.content.isSome)) :
    ∃ courses, Joins codemod dryRun loaded settled courses := by
  induction loaded generalizing settled with
  | nil =>
    obtain rfl : settled = [] := by simpa [process] using h
    exact ⟨[], .nil⟩
  | cons first loaded ih =>
    obtain ⟨file, content⟩ := first
    cases content with
    | error fault =>
      obtain ⟨courses, hrest⟩ := ih (by simpa [process] using h) hasked
      exact ⟨_, .unread hrest⟩
    | ok text =>
      have hprocess : process codemod ({ file, content := .ok text } :: loaded)
          = { file, outcome := codemod.run file.route text.toList } :: process codemod loaded := rfl
      rw [hprocess] at h
      obtain ⟨entry, rest, rfl, hentry, hrest⟩ := List.map_eq_cons_iff.mp h
      obtain ⟨hfirst, hothers⟩ := List.forall_mem_cons.mp hasked
      obtain ⟨courses, hjoins⟩ := ih hrest hothers
      obtain rfl : entry.processed.file = file := by rw [hentry]
      exact ⟨_, .settled (by rw [hentry]) hfirst hjoins⟩

/-- The step of the summary that a settled run makes. -/
def Settled.step (settled : Settled) : Summary.Step :=
  match settled.fault? with
  | some _ => .failed settled.processed.file.route
  | none => .counted settled.processed.file.route settled.processed.outcome.result

/-- The steps of the summary of a batch. -/
def steps (loaded : List Loaded) (settled : List Settled) : List Summary.Step :=
  (unread loaded).map (fun failure => .failed failure.1) ++ settled.map Settled.step

/-- The summary of a batch is made of a step for each file. -/
lemma summarise_eq (dryRun : Bool) (loaded : List Loaded) (settled : List Settled) :
    summarise dryRun loaded settled = (steps loaded settled).foldl Summary.step { dryRun } := by
  have hstep : ∀ (summary : Summary) (entry : Settled), summary.step entry.step
      = match entry.fault? with
        | some _ => summary.recordError entry.processed.file.route
        | none => summary.record entry.processed.file.route entry.processed.outcome.result := by
    intro summary entry
    unfold Settled.step
    cases entry.fault? <;> rfl
  rw [steps, List.foldl_append, List.foldl_map, List.foldl_map]
  simp only [hstep]
  rfl

namespace Joins

variable {codemod : Codemod} {dryRun : Bool} {loaded : List Loaded} {settled : List Settled}
  {courses : List Course}

/-- Every file that was to be read has its course. -/
lemma map_file (h : Joins codemod dryRun loaded settled courses) :
    courses.map (·.file) = loaded.map (·.file) := by
  induction h with
  | nil => rfl
  | unread _ ih => rw [List.map_cons, List.map_cons, ih]
  | settled _ _ _ ih =>
    rw [List.map_cons, List.map_cons, ih]
    rfl

/-- The courses have the accesses of the two loops. -/
lemma accesses (h : Joins codemod dryRun loaded settled courses) :
    courses.map Course.reading = loaded.map Loaded.reading ∧
      courses.filterMap Course.writing? = settled.filterMap Settled.writing? := by
  induction h with
  | nil => exact ⟨rfl, rfl⟩
  | unread _ ih =>
    rw [List.map_cons, List.map_cons, ih.1, List.filterMap_cons_none rfl]
    exact ⟨rfl, ih.2⟩
  | @settled text entry _ _ _ _ _ _ ih =>
    have hwriting : (entry.course text).writing? = entry.writing? := rfl
    rw [List.map_cons, List.map_cons, ih.1, List.filterMap_cons, List.filterMap_cons, hwriting,
      ih.2]
    exact ⟨rfl, rfl⟩

/-- What is reported are the ends of the courses. -/
lemma filterMap_report? (h : Joins codemod dryRun loaded settled courses) :
    courses.filterMap Course.report? = reported settled := by
  induction h with
  | nil => rfl
  | unread _ ih => exact ih
  | @settled text entry _ _ courses _ _ _ ih =>
    have hreport : (entry.course text).report? = if entry.fault?.isNone then some entry else none := by
      unfold Course.report? Settled.course Settled.ending
      cases entry.fault? <;> rfl
    unfold reported at ih ⊢
    rw [List.filterMap_cons, hreport, List.filter_cons, ← ih]
    cases entry.fault?.isNone <;> rfl

/-- Every course makes one step of the summary, first the files that could not be read. -/
lemma steps_perm (h : Joins codemod dryRun loaded settled courses) :
    (steps loaded settled).Perm (courses.map Course.step) := by
  induction h with
  | nil => exact .nil
  | unread _ ih => exact ih.cons _
  | @settled text entry _ _ _ _ _ _ ih =>
    have hstep : (entry.course text).step = entry.step := by
      unfold Course.step Settled.course Settled.ending Settled.step
      cases entry.fault? <;> rfl
    rw [List.map_cons, hstep]
    exact List.perm_middle.trans (ih.cons entry.step)

end Joins

/-! ## One course -/

namespace Settled

variable {entry : Settled}

/-- A run failed if the disk was asked to write it and refused. -/
lemma fault?_eq_some_iff {fault : AccessFault} :
    entry.fault? = some fault ↔ entry.answer = some (.error fault) := by
  unfold fault?
  split
  · next other hanswer => simp [hanswer]
  · next hother =>
    constructor
    · intro h
      cases h
    · intro h
      exact absurd h (hother fault)

/-- A run was written if the disk was asked to write it and did. -/
lemma written_iff : entry.written = true ↔ entry.answer = some (.ok ()) := by
  unfold written
  split
  · next hanswer => simp [hanswer]
  · next hother =>
    constructor
    · intro h
      cases h
    · intro h
      exact absurd h (hother ())

/-- A run ends in failure for the reason that it was not written. -/
lemma ending_eq_error_iff {fault : AccessFault} :
    entry.ending = .error fault ↔ entry.answer = some (.error fault) := by
  rw [← fault?_eq_some_iff]
  unfold ending
  cases entry.fault? with
  | none => simp
  | some other => simp

/-- A report is the run itself. -/
lemma eq_of_ending {found : Settled} (h : entry.ending = .ok found) : found = entry := by
  unfold ending at h
  split at h
  · cases h
  · exact (Except.ok.inj h).symm

/-- What the disk was asked to write is the new text. -/
lemma attempt?_eq_some_iff {new : String} {answer : Except AccessFault Unit} :
    entry.attempt? = some (new, answer) ↔
      entry.answer = some answer ∧
        entry.processed.outcome.content.map String.ofList = some new := by
  unfold attempt?
  cases entry.answer with
  | none => simp
  | some given =>
    cases entry.processed.outcome.content with
    | none => simp
    | some text => simp [and_comm]

section Asked

variable {codemod : Codemod} {dryRun : Bool} {text : String}
  (houtcome : entry.processed.outcome = codemod.run entry.processed.file.route text.toList)
  (hasked : entry.answer.isSome = (!dryRun && entry.processed.outcome.content.isSome))
include hasked

/-- An answer is about an attempt to write. -/
lemma exists_attempt?_iff {answer : Except AccessFault Unit} :
    (∃ new, entry.attempt? = some (new, answer)) ↔ entry.answer = some answer := by
  simp only [attempt?_eq_some_iff]
  constructor
  · rintro ⟨new, hanswer, -⟩
    exact hanswer
  · intro hanswer
    rw [hanswer, Option.isSome_some] at hasked
    obtain ⟨-, hcontent⟩ := Bool.and_eq_true_iff.mp hasked.symm
    obtain ⟨chars, hchars⟩ := Option.isSome_iff_exists.mp hcontent
    exact ⟨String.ofList chars, hanswer, by rw [hchars]; rfl⟩

include houtcome

/-- The course of a file that could be read comes to what the disk answered. -/
lemma settles_course : (entry.course text).Settles codemod dryRun where
  attempt_iff new := by
    constructor
    · rintro ⟨answer, hattempt⟩
      obtain ⟨hanswer, hnew⟩ := attempt?_eq_some_iff.mp hattempt
      rw [hanswer, Option.isSome_some] at hasked
      obtain ⟨hwet, -⟩ := Bool.and_eq_true_iff.mp hasked.symm
      rw [houtcome] at hnew
      exact ⟨by simpa using hwet, text, rfl, hnew⟩
    · rintro ⟨rfl, read, hread, hnew⟩
      obtain rfl := Except.ok.inj hread
      have hcontent : entry.processed.outcome.content.map String.ofList = some new := by
        rwa [houtcome]
      have hanswer : entry.answer.isSome = true := by
        rw [hasked, ← Option.isSome_map (f := String.ofList), hcontent]
        rfl
      obtain ⟨answer, hgiven⟩ := Option.isSome_iff_exists.mp hanswer
      exact ⟨answer, attempt?_eq_some_iff.mpr ⟨hgiven, hcontent⟩⟩
  error_iff fault := by
    have hread : (entry.course text).content ≠ .error fault := by
      intro h
      cases h
    rw [or_iff_right hread]
    exact ending_eq_error_iff.trans (exists_attempt?_iff hasked).symm
  report found hending := by
    obtain rfl := eq_of_ending hending
    refine ⟨⟨text, rfl, ?_⟩, written_iff.trans (exists_attempt?_iff hasked).symm⟩
    rw [show (found.course text).file = found.processed.file from rfl, ← houtcome]

end Asked

end Settled

/-- The course of a file that could not be read ends with that. -/
lemma Course.settles_unread (codemod : Codemod) (dryRun : Bool) (file : RouteFile)
    (fault : AccessFault) :
    Course.Settles codemod dryRun
      { file, content := .error fault, attempt := none, ending := .error fault } where
  attempt_iff new := by
    constructor
    · rintro ⟨answer, hattempt⟩
      cases hattempt
    · rintro ⟨-, text, hread, -⟩
      cases hread
  error_iff other := by
    constructor
    · rintro ⟨⟩
      exact .inl rfl
    · rintro (hread | ⟨new, hattempt⟩)
      · obtain rfl := Except.error.inj hread
        rfl
      · cases hattempt
  report entry hending := by cases hending

/-- Every course comes to what the disk answered on it. -/
lemma Joins.settles {codemod : Codemod} {dryRun : Bool} {loaded : List Loaded}
    {settled : List Settled} {courses : List Course}
    (h : Joins codemod dryRun loaded settled courses) :
    ∀ course ∈ courses, course.Settles codemod dryRun := by
  induction h with
  | nil => simp
  | unread _ ih => exact List.forall_mem_cons.mpr ⟨Course.settles_unread _ _ _ _, ih⟩
  | settled houtcome hasked _ ih =>
    exact List.forall_mem_cons.mpr ⟨Settled.settles_course houtcome hasked, ih⟩

namespace Course

variable {codemod : Codemod} {dryRun : Bool}

/-- A course has one refused access if it fails and none if it does not. -/
lemma Settles.countP_refused {course : Course} (h : course.Settles codemod dryRun) :
    (course.reading :: course.writing?.toList).countP Access.refused
      = course.failedRoute?.toList.length := by
  obtain ⟨file, content, attempt, ending⟩ := course
  cases content with
  | error fault =>
    -- it could not be read, so nothing was written
    obtain rfl : ending = .error fault := (h.error_iff fault).mpr (.inl rfl)
    have hattempt : attempt = none := by
      rw [Option.eq_none_iff_forall_not_mem]
      rintro ⟨new, answer⟩ hmem
      obtain ⟨-, text, hread, -⟩ := (h.attempt_iff new).mp ⟨answer, hmem⟩
      cases hread
    subst hattempt
    rfl
  | ok text =>
    have hrefused : ∀ fault, ending = .error fault → ∃ new, attempt = some (new, .error fault) :=
      fun fault hending => ((h.error_iff fault).mp hending).resolve_left (by rintro ⟨⟩)
    cases ending with
    | error fault =>
      obtain ⟨new, rfl⟩ := hrefused fault rfl
      rfl
    | ok entry =>
      cases attempt with
      | none => rfl
      | some attempt =>
        obtain ⟨new, answer⟩ := attempt
        cases answer with
        | ok _ => rfl
        | error fault => cases (h.error_iff fault).mpr (.inr ⟨new, rfl⟩)

/-- As many accesses of the courses were refused as there are failures among them. -/
lemma countP_refused {courses : List Course}
    (h : ∀ course ∈ courses, course.Settles codemod dryRun) :
    (courses.map reading ++ courses.filterMap writing?).countP Access.refused
      = (courses.filterMap failedRoute?).length := by
  induction courses with
  | nil => rfl
  | cons course courses ih =>
    obtain ⟨hfirst, hothers⟩ := List.forall_mem_cons.mp h
    have hcourse := hfirst.countP_refused
    have hrest := ih hothers
    simp only [List.filterMap_eq_flatMap_toList, List.map_cons, List.flatMap_cons,
      List.countP_append, List.countP_cons, List.length_append] at hcourse hrest ⊢
    omega

/-- The courses that end with a result are the reports with it. -/
lemma countP_step (courses : List Course) (result : Result) :
    (courses.map step).countP (Summary.Step.isOf result)
      = (courses.filterMap report?).countP fun entry =>
          entry.processed.outcome.result == result := by
  induction courses with
  | nil => rfl
  | cons course courses ih =>
    obtain ⟨file, content, attempt, ending⟩ := course
    cases ending with
    | ok entry =>
      have hreport : (Course.mk file content attempt (.ok entry)).report? = some entry := rfl
      rw [List.filterMap_cons_some hreport, List.map_cons, List.countP_cons, List.countP_cons, ih]
      rfl
    | error fault =>
      have hreport : (Course.mk file content attempt (.error fault)).report? = none := rfl
      rw [List.filterMap_cons_none hreport, List.map_cons, List.countP_cons, ih]
      rfl

end Course

/-! ## The account -/

/-- **Every file of a batch settles once.** For every codemod and every list of files, in a dry run or
not, and on every disk, whichever reads and writes it refuses: after both loops of a batch every file
has its own course. It was read once, and written at most once, with the new text of the codemod's run
on what was read. It ends with one item: among the failures if one of the two was refused, and
otherwise in the report, which is that of the run. The total, the count of each result and the errors
are the numbers of these, and a report says that its file was written exactly if it was. -/
theorem batch_settles_once {σ : Type} [Files (StateM σ)] (codemod : Codemod) (dryRun : Bool)
    (files : List RouteFile) (disk : σ) :
    let answered := ((batch codemod dryRun files : Recorded (StateM σ) Batch).run []).run disk
    let batch := answered.1.1
    let record := answered.1.2
    ∃ courses, SettlesOnce codemod dryRun files (summarise dryRun batch.loaded batch.settled)
      (reported batch.settled) record courses := by
  obtain ⟨batch, after, hrun, hfiles, hprocessed, hasked⟩ := run_batch codemod dryRun files disk
  rw [hrun]
  change ∃ courses, SettlesOnce codemod dryRun files (summarise dryRun batch.loaded batch.settled)
    (reported batch.settled)
    (batch.loaded.map Loaded.reading ++ batch.settled.filterMap Settled.writing?) courses
  obtain ⟨courses, hjoins⟩ := exists_joins hprocessed hasked
  obtain ⟨htotal, hcount, herrors, hfailed⟩ :=
    Summary.foldl_step_counts { dryRun } (steps batch.loaded batch.settled)
  rw [← summarise_eq] at htotal hcount herrors hfailed
  have hperm := hjoins.steps_perm
  have hroutes : (courses.map Course.step).filterMap Summary.Step.failedRoute?
      = courses.filterMap Course.failedRoute? := by
    rw [List.filterMap_map]
    rfl
  have hlength : (summarise dryRun batch.loaded batch.settled).errors
      = (courses.filterMap Course.failedRoute?).length := by
    rw [herrors, (hperm.filterMap _).length_eq, hroutes]
    exact Nat.zero_add _
  obtain ⟨hreadings, hwritings⟩ := hjoins.accesses
  refine ⟨courses, ?_, ?_, hjoins.settles, hjoins.filterMap_report?, ?_, ?_, ?_, hlength, ?_⟩
  · rw [hjoins.map_file, hfiles]
  · rw [hreadings, hwritings]
  · rw [hfailed, ← hroutes]
    exact hperm.filterMap _
  · rw [htotal, hperm.length_eq, ← hfiles, ← hjoins.map_file]
    simp
  · intro result
    rw [hcount, hperm.countP_eq, Course.countP_step, hjoins.filterMap_report?]
    cases result <;> simp [Summary.count]
  · rw [hlength, ← hreadings, ← hwritings, Course.countP_refused hjoins.settles]

/-- A disk with some texts on it, not all of which may be written. -/
structure Shelf where
  texts : List (Path × String)
  locked : List Path

instance : Files (StateM Shelf) where
  kind? _ := pure none
  ownKind? _ := pure none
  below _ := pure []
  read path := fun shelf =>
    match shelf.texts.find? fun entry => entry.1 == path with
    | some entry => (.ok entry.2, shelf)
    | none => (.error .notText, shelf)
  write path text := fun shelf =>
    if shelf.locked.contains path then (.error (.refused "Permission denied"), shelf)
    else (.ok (), { shelf with texts := (path, text) :: shelf.texts })
  makeDirectories _ := pure (.ok ())

/-- Four files are to be changed. The first cannot be read, the second cannot be written, the third is
written, and there is nothing to do about the fourth. -/
theorem batch_settles_once_mixed :
    let codemod : Codemod :=
      { catalog := ⟨.layered, [], [], [], 300, .general⟩
        eligibility := { excluded := [] }
        imports := { anchor := "s", required := [⟨"u", "c"⟩] }
        wrapping := { enabled := false } }
    let text := "import a from 's'\nexport const GET = b\n"
    let disk : Shelf := ⟨[(⟨"b"⟩, text), (⟨"c"⟩, text), (⟨"d"⟩, "")], [⟨"b"⟩]⟩
    let files : List RouteFile :=
      [⟨⟨"a"⟩, ⟨"a"⟩⟩, ⟨⟨"b"⟩, ⟨"b"⟩⟩, ⟨⟨"c"⟩, ⟨"c"⟩⟩, ⟨⟨"d"⟩, ⟨"d"⟩⟩]
    let answered := ((batch codemod false files : Recorded (StateM Shelf) Batch).run []).run disk
    let summary := summarise false answered.1.1.loaded answered.1.1.settled
    let reports := reported answered.1.1.settled
    (∃ courses, SettlesOnce codemod false files summary reports answered.1.2 courses) ∧
      answered.1.2.map Access.refused = [true, false, false, false, true, false] ∧
      summary.failed = [⟨"a"⟩, ⟨"b"⟩] ∧
      reports.map (fun entry => (entry.processed.file.route.text, entry.written))
        = [("c", true), ("d", false)] :=
  ⟨batch_settles_once _ false _ _, by decide +kernel⟩

end CachedRoutes.Command.Apply
