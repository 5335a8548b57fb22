import CachedRoutes.Command.Apply
import CachedRoutes.Command.Init
import CachedRoutes.Command.ShowPolicy
import CachedRoutes.Settings.Toml

/-!
# Running a command line

Every command but `init` starts by loading the settings: those of the user, with those of the
project laid over them. The project's settings file is looked for in the directory that the command
works on and in the directories that enclose it by name.
-/

namespace CachedRoutes.Command

/-- What a command line finds when it starts. -/
structure Environment where
  /-- The working directory, as an absolute path. -/
  workingDirectory : Path
  /-- The environment variables, with their values. -/
  defined : List (String × String)
  /-- The time. -/
  now : Timestamp

namespace Environment

/-- The value of an environment variable. -/
def lookup? (environment : Environment) (name : String) : Option String :=
  (environment.defined.find? fun entry => entry.1 == name).map (·.2)

/-- The directory of the user's settings: the configured one if it is absolute, or else the usual
one in the home directory. -/
def settingsDirectory (environment : Environment) : Path :=
  match (environment.lookup? "XDG_CONFIG_HOME").filter fun text => (Path.mk text).isAbsolute with
  | some text => ⟨text⟩
  | none =>
    match (environment.lookup? "HOME").filter fun text => !text.isEmpty with
    | some home => (Path.mk home).join ⟨".config"⟩
    | none => ⟨"."⟩

/-- The user's settings file, if no other is asked for. -/
def settingsFile (environment : Environment) : Path :=
  (environment.settingsDirectory.join ⟨"routecache"⟩).join ⟨"config.toml"⟩

end Environment

/-- The name of the environment variable with the path of the user's settings file. -/
def settingsVariableName : String := "ROUTECACHE_CONFIG"

/-- What is said about settings that cannot be used. -/
def faultReason : Settings.Fault → String
  | .notToml => "TOML parse error"
  | .illTyped => "invalid type or missing field"
  | .violation violation => violation.reason

section

variable {m : Type → Type} [Monad m] [Files m]

/-- Where the project's settings file is looked for: in the directory and those around it. -/
def localCandidates (start : Path) : List Path :=
  start.ancestors.map fun directory => directory.join ⟨Init.fileName⟩

/-- The directory that the search for the project's settings file starts from. -/
def searchStart (environment : Environment) : Action → Path
  | .apply options => options.root.getD environment.workingDirectory
  | _ => environment.workingDirectory

/-- The project's settings file, if it has one and it is not left out. -/
def findLocal (environment : Environment) (invocation : Invocation) : Session m (Option Path) := do
  if invocation.globals.noLocal then
    Session.log .debug "Local config discovery disabled (--no-local)"
    return none
  let found ← (Files.firstFile? (localCandidates (searchStart environment invocation.action)) : m _)
  if let some path := found then Session.log .debug s!"Found local config: {path.text}"
  return found

/-- The table of a settings file. -/
def readTable (file : Path) : Session m Toml.Value := do
  match ← (Files.read file : m _) with
  | .error _ => throw (.unreadableSettings file)
  | .ok text =>
    match Settings.tableOf (some text) with
    | .ok table => return table
    | .error fault => throw (.invalidSettings file (faultReason fault))

/-- Loads the settings from the user's file, if it is there, and the project's. -/
def loadSettings (file : Path) (localFile : Option Path) : Session m Settings := do
  let lower ←
    if ← Files.present (m := m) file then readTable file
    else
      Session.log .debug "Config file not found, using defaults"
      pure (.table [])
  let merged ←
    match localFile with
    | some path =>
      Session.log .debug s!"Applying local config {path.text}"
      pure (Toml.overlay lower (← readTable path))
    | none => pure lower
  match Settings.ofMerged merged with
  | .ok settings => return settings
  | .error fault => throw (.invalidSettings (localFile.getD file) (faultReason fault))

/-- Carries out an invocation. -/
def carryOut (environment : Environment) (invocation : Invocation) : Session m Unit := do
  if let .init options := invocation.action then
    Init.run options environment.workingDirectory
  else
    let file := invocation.globals.settings.getD environment.settingsFile
    let localFile ← findLocal environment invocation
    let settings ← loadSettings file localFile
    match invocation.action with
    | .apply options => Apply.run options settings environment.workingDirectory environment.now
    | .policy options => ShowPolicy.run options settings
    | .showSettings => Session.say settings.document
    | .showPaths =>
      Session.say file.text
      if let some path := localFile then Session.say path.text
    | .init _ => pure ()

end

/-! ## Results -/

/-- What a command line comes to. -/
structure Finished where
  exitCode : Nat
  stdout : String
  stderr : String
  deriving DecidableEq, Repr

/-- The program's version. -/
def versionText : String := "0.3.0"

/-- A short help text. -/
def helpText (command : String) : String :=
  "\n".intercalate
    [ "Codemod that retrofits caching onto route handlers",
      "",
      s!"Usage: {command} [OPTIONS] [ARGUMENTS]",
      "",
      "Commands:",
      "  apply   Add caching to route handlers",
      "  policy  Show the caching policy resolved for routes",
      "  init    Initialize a project-local .routecache.toml config",
      "  config  Show configuration",
      "" ]

/-- The result of a command line that is not carried out. -/
def Stop.finish : Stop → Finished
  | misuse complaint => { exitCode := 2, stdout := "", stderr := s!"error: {complaint}\n" }
  | version command => { exitCode := 0, stdout := s!"{command} {versionText}\n", stderr := "" }
  | help command => { exitCode := 0, stdout := helpText command, stderr := "" }

/-- The lines about a failure. -/
def failureLines (failure : Failure) : List Line :=
  .err s!"Error: {failure.message}"
    :: (failure.hint?.map fun hint => Line.err s!"Hint: {hint}").toList

/-- Runs a command line. -/
def run {m : Type → Type} [Monad m] [Files m] (environment : Environment) (words : List String) :
    m Finished := do
  match readArguments (environment.lookup? settingsVariableName) words with
  | .error stop => return stop.finish
  | .ok invocation =>
    let (result, lines) ← (carryOut (m := m) environment invocation).run.run []
    let verbosity := invocation.globals.verbosity
    match result with
    | .ok _ => return { exitCode := 0, stdout := stdout lines, stderr := stderr verbosity lines }
    | .error failure =>
      let lines := lines ++ failureLines failure
      return { exitCode := 1, stdout := stdout lines, stderr := stderr verbosity lines }

end CachedRoutes.Command
