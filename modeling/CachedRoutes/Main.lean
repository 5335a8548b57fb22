import CachedRoutes.Command.Run
import Std.Time

/-!
# The program

Runs the command line on the real disk. Nothing is decided here.
-/

namespace CachedRoutes

/-- The kind of a file on the disk, if it is one that the commands know. -/
def Kind.ofFileType? : IO.FS.FileType → Option Kind
  | .dir => some .directory
  | .file => some .file
  | .symlink => some .link
  | .other => none

/-- The answer of an action that may be refused. -/
def answerOf {α : Type} (action : IO α) : IO (Except AccessFault α) := do
  match ← action.toBaseIO with
  | .ok value => return .ok value
  | .error e => return .error (.refused e.toString)

/-- All that is below a directory, by the names on the way to it. -/
partial def listBelow (directory : String) (names : List String) :
    IO (List (List String × Kind)) := do
  let place := names.foldl (fun path name => path / name) ((← IO.currentDir) / directory)
  let mut found := []
  for entry in ← place.readDir do
    let way := names ++ [entry.fileName]
    if let some kind := Kind.ofFileType? (← entry.path.symlinkMetadata).type then
      found := found ++ [(way, kind)]
      if kind == .directory then found := found ++ (← listBelow directory way)
  return found

instance : Files IO where
  kind? path := do
    match ← ((← IO.currentDir) / path.text).metadata.toBaseIO with
    | .ok data => return Kind.ofFileType? data.type
    | .error _ => return none
  ownKind? path := do
    match ← ((← IO.currentDir) / path.text).symlinkMetadata.toBaseIO with
    | .ok data => return Kind.ofFileType? data.type
    | .error _ => return none
  below path := listBelow path.text []
  read path := do
    match ← answerOf (IO.FS.readBinFile path.text) with
    | .error fault => return .error fault
    | .ok bytes =>
      match String.fromUTF8? bytes with
      | some text => return .ok text
      | none => return .error .notText
  write path text := answerOf (IO.FS.writeFile path.text text)
  makeDirectories path := answerOf (IO.FS.createDirAll path.text)

/-- The names of the environment variables that the program looks at. -/
def variableNames : List String :=
  ["XDG_CONFIG_HOME", "HOME", Command.settingsVariableName]

/-- What the program finds when it starts. -/
def currentEnvironment : IO Command.Environment := do
  let now := (← Std.Time.Timestamp.now).toNanosecondsSinceUnixEpoch.val
  let defined ← variableNames.filterMapM fun name => do
    return (← IO.getEnv name).map fun value => (name, value)
  return {
    workingDirectory := ⟨toString (← IO.currentDir)⟩
    defined
    now := ⟨now / 1000000000, (now % 1000000000).toNat⟩ }

end CachedRoutes

/-- Runs the command line. -/
def main (words : List String) : IO UInt32 := do
  let finished ← CachedRoutes.Command.run (m := IO) (← CachedRoutes.currentEnvironment) words
  (← IO.getStdout).putStr finished.stdout
  (← IO.getStderr).putStr finished.stderr
  return UInt32.ofNat finished.exitCode
