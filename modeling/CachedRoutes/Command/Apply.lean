import CachedRoutes.Command.Arguments
import CachedRoutes.Discovery
import CachedRoutes.Report.Summary

/-!
# Changing route files

All files are read before the first is written. A file that cannot be read or written is counted and
reported, and the others go on. What is counted and reported is computed from the answers of the
disk alone.
-/

namespace CachedRoutes.Command.Apply

/-! ## The batch -/

/-- A route file with what the disk answered when it was read. -/
structure Loaded where
  file : RouteFile
  content : Except AccessFault String

/-- A route file with the outcome of its run. -/
structure Processed where
  file : RouteFile
  outcome : Outcome
  deriving DecidableEq, Repr

/-- The runs on the files that could be read. -/
def process (codemod : Codemod) (loaded : List Loaded) : List Processed :=
  loaded.filterMap fun entry =>
    match entry.content with
    | .ok text => some { file := entry.file, outcome := codemod.run entry.file.route text.toList }
    | .error _ => none

/-- The files that could not be read. -/
def unread (loaded : List Loaded) : List (Route × AccessFault) :=
  loaded.filterMap fun entry =>
    match entry.content with
    | .ok _ => none
    | .error fault => some (entry.file.route, fault)

/-- What the log says about reading and running. -/
def loadLog (codemod : Codemod) (loaded : List Loaded) : List Line :=
  loaded.flatMap fun entry =>
    match entry.content with
    | .ok text =>
      let outcome := codemod.run entry.file.route text.toList
      (outcome.notes ++ [s!"{entry.file.route.text}: {outcome.result.label}"]).map (.log .debug)
    | .error fault => [.log .warn s!"Failed to read {entry.file.path.text}: {fault.message}"]

/-- A run with what the disk answered when its new text was written, if it was. -/
structure Settled where
  processed : Processed
  answer : Option (Except AccessFault Unit)

/-- Was the file written? -/
def Settled.written (settled : Settled) : Bool :=
  match settled.answer with
  | some (.ok _) => true
  | _ => false

/-- Why the file was not written, if it should have been. -/
def Settled.fault? (settled : Settled) : Option AccessFault :=
  match settled.answer with
  | some (.error fault) => some fault
  | _ => none

/-- The runs that are reported: all but those whose text could not be written. -/
def reported (settled : List Settled) : List Settled :=
  settled.filter fun entry => entry.fault?.isNone

/-- The files that could not be written. -/
def unwritten (settled : List Settled) : List (Route × AccessFault) :=
  settled.filterMap fun entry => entry.fault?.map fun fault => (entry.processed.file.route, fault)

/-- How many of the runs change their file. -/
def pending (processed : List Processed) : Nat :=
  (processed.filter fun entry => entry.outcome.changed).length

/-- What came of a list of route files. -/
structure Batch where
  loaded : List Loaded
  processed : List Processed
  settled : List Settled

/-- The summary of a batch: the files that could not be read, then the others in order. -/
def summarise (dryRun : Bool) (loaded : List Loaded) (settled : List Settled) : Summary :=
  let start := (unread loaded).foldl (fun s failure => s.recordError failure.1) { dryRun }
  settled.foldl
    (fun s entry =>
      match entry.fault? with
      | some _ => s.recordError entry.processed.file.route
      | none => s.record entry.processed.file.route entry.processed.outcome.result)
    start

/-! ## Reports -/

/-- The lines about one file. -/
def outcomeLines (format : Format) (outcome : Outcome) : List Line :=
  let route := outcome.route.text
  match format with
  | .plain => [.out (outcome.result.label ++ "\t" ++ route)]
  | .json => []
  | .table =>
    if outcome.result.isSuccess then
      let detail :=
        match outcome.policy with
        | some policy => s!"{outcome.result.label}; {policy.describe}"
        | none => outcome.result.label
      let reason := outcome.reason.getD ""
      okLine route detail
        :: (if outcome.result = .importsAdded && !reason.isEmpty then [remarkLine reason] else [])
    else if outcome.result.isSkip then [remarkLine s!"{route} ({outcome.result.label})"]
    else [warnLine route (outcome.reason.getD "")]

/-- The line about a file that could not be read or written. -/
def failureLine (format : Format) (failure : Route × AccessFault) : Line :=
  if format.isMachine then .err s!"{failure.1.text}: {failure.2.message}"
  else failLine failure.1.text failure.2.message

/-- A policy as members of an object, in ascending order. -/
def policyJson (policy : Policy) : Json :=
  .object
    [ ("cache_key_base", .string policy.keyBase),
      ("revalidate_secs", .number policy.revalidate),
      ("tag", .string policy.tag.name) ]

/-- The report of one file as an object, with members in ascending order. -/
def fileJson (settled : Settled) : Json :=
  let outcome := settled.processed.outcome
  .object
    ((outcome.policy.map fun policy => ("policy", policyJson policy)).toList
      ++ (outcome.reason.map fun reason => ("reason", .string reason)).toList
      ++ [ ("result", .string outcome.result.name),
        ("route", .string outcome.route.text),
        ("written", .bool settled.written) ])

/-- The lines at the end of a report. -/
def closing (format : Format) (now : Timestamp) (summary : Summary) (reports : List Settled) :
    List Line :=
  match format with
  | .json =>
    [.out (summary.toJson now [("files", .array (reports.map fileJson))]).pretty]
  | .plain => summary.lines.map .out
  | .table =>
    let verdict :=
      if summary.needsManual > 0 || summary.errors > 0 then "[WARN] Some routes need attention"
      else if summary.dryRun then "[OK] Dry run complete"
      else "[OK] Done"
    .out "" :: summary.lines.map .out ++ [.out "", .out verdict]

/-- The lines, unless they are for people and a program reads the output. -/
def forPeople (options : ApplyOptions) (lines : List Line) : List Line :=
  if options.format.isMachine then [] else lines

/-- The lines about a batch. -/
def Batch.lines (options : ApplyOptions) (codemod : Codemod) (now : Timestamp) (batch : Batch) :
    List Line :=
  let pending := pending batch.processed
  let question :=
    if !options.dryRun && pending > 0 && options.yes then
      [remarkLine s!"Write {pending} changed file(s)? (auto-approved)"]
    else []
  loadLog codemod batch.loaded
    ++ forPeople options (question ++ [.out "", .out "Routes"])
    ++ (batch.settled.flatMap fun entry =>
      match entry.fault? with
      | some fault =>
        [.log .warn s!"Failed to write {entry.processed.file.path.text}: {fault.message}"]
      | none => outcomeLines options.format entry.processed.outcome)
    ++ (unread batch.loaded ++ unwritten batch.settled).map (failureLine options.format)
    ++ closing options.format now (summarise options.dryRun batch.loaded batch.settled)
      (reported batch.settled)

/-! ## The command -/

variable {m : Type → Type} [Monad m] [Files m]

/-- Writes lines that are meant for people. -/
def tell (options : ApplyOptions) (lines : List Line) : Session m Unit :=
  Session.write (forPeople options lines)

/-- The route files that are named one by one. Those that are not there are passed over. -/
def namedFiles (options : ApplyOptions) (root : Path) : List Path → Session m (List RouteFile)
  | [] => return []
  | path :: rest => do
    let full := root.join path
    if ← Files.isFile (m := m) full then
      return RouteFile.ofPath root full :: (← namedFiles options root rest)
    else
      Session.log .warn s!"Route file not found: {full.text}"
      tell options [warnLine path.text "file not found, skipped"]
      namedFiles options root rest

/-- The route files to change. -/
def collect (options : ApplyOptions) (settings : Settings) (root : Path) :
    Session m (List RouteFile) :=
  if options.paths.isEmpty then Discovery.discover settings.discovery root
  else namedFiles options root options.paths

/-- Reads route files. -/
def loadAll : List RouteFile → m (List Loaded)
  | [] => return []
  | file :: rest => do
    let content ← Files.read file.path
    return { file, content } :: (← loadAll rest)

/-- Writes the new texts, one after the other, if `write` says so. -/
def settleAll (write : Bool) : List Processed → m (List Settled)
  | [] => return []
  | processed :: rest => do
    let answer ←
      match write, processed.outcome.content with
      | true, some text => some <$> Files.write processed.file.path (String.ofList text)
      | _, _ => pure none
    return { processed, answer } :: (← settleAll write rest)

/-- Reads all route files, runs the codemod on their texts, and writes the new texts if there are any,
unless it is a dry run. -/
def batch (codemod : Codemod) (dryRun : Bool) (files : List RouteFile) : m Batch := do
  let loaded ← loadAll files
  let processed := process codemod loaded
  let settled ← settleAll (!dryRun && pending processed > 0) processed
  return { loaded, processed, settled }

/-- The codemod that the options ask for. -/
def codemodFor (options : ApplyOptions) (settings : Settings) : Except Catalog.Flaw Codemod := do
  let codemod ← Codemod.ofSettings settings
  let codemod :=
    match options.strategy with
    | some strategy => codemod.withStrategy strategy
    | none => codemod
  return if options.importsOnly then codemod.withWrapping false else codemod

/-- Changes the route files of a project and reports about it. -/
def run (options : ApplyOptions) (settings : Settings) (workingDirectory : Path) (now : Timestamp) :
    Session m Unit := do
  let root := options.root.getD workingDirectory
  unless ← Files.isDirectory (m := m) root do throw (.rootNotFound root)
  let codemod ←
    match codemodFor options settings with
    | .ok codemod => pure codemod
    | .error flaw => throw (.invalidPolicy flaw)
  let only := if options.importsOnly then " (imports only)" else ""
  tell options
    [ .out "routecache", .out "",
      infoLine s!"Policy strategy: {codemod.catalog.strategy.name}{only}" ]
  let files ← collect options settings root
  Session.log .info s!"Processing {files.length} route file(s) under {root.text}"
  let batch ← (batch codemod options.dryRun files : m _)
  Session.write (batch.lines options codemod now)

end CachedRoutes.Command.Apply
