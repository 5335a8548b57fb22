import CachedRoutes.Path

/-!
# What the commands need of a disk

The commands are written against this small interface, so that they run on a real disk as well as on
the file trees of `Disk.Tree`, where what they do can be stated and proved. No operation throws:
what can go wrong is part of the answer.
-/

namespace CachedRoutes

/-- What a path leads to. -/
inductive Kind where
  | file
  | directory
  /-- A symbolic link. -/
  | link
  deriving DecidableEq, Repr

/-- Why a file was not read or written. -/
inductive AccessFault where
  /-- Its bytes are not UTF-8. -/
  | notText
  /-- The system refused, with the given words. -/
  | refused (reason : String)
  deriving DecidableEq, Repr

/-- The fault in words. -/
def AccessFault.message : AccessFault → String
  | notText => "stream did not contain valid UTF-8"
  | refused reason => reason

/-- The operations on files that the commands use, in a monad that has a disk. -/
class Files (m : Type → Type) where
  /-- What the path leads to, links followed. -/
  kind? : Path → m (Option Kind)
  /-- What stands at the path itself, a link at its end not followed. -/
  ownKind? : Path → m (Option Kind)
  /-- All that is below a directory, by the names on the way to it, links not followed. -/
  below : Path → m (List (List String × Kind))
  /-- The text of a file. -/
  read : Path → m (Except AccessFault String)
  /-- Writes a file, which may be new. -/
  write : Path → String → m (Except AccessFault Unit)
  /-- Makes a directory and those around it, as needed. -/
  makeDirectories : Path → m (Except AccessFault Unit)

namespace Files

variable {m : Type → Type} [Monad m] [Files m]

/-- Does the path lead to a file? -/
def isFile (path : Path) : m Bool := do
  return (← kind? path) == some .file

/-- Does the path lead to a directory? -/
def isDirectory (path : Path) : m Bool := do
  return (← kind? path) == some .directory

/-- Does the path lead to anything? -/
def present (path : Path) : m Bool := do
  return (← kind? path).isSome

/-- The first path that leads to a file. -/
def firstFile? : List Path → m (Option Path)
  | [] => return none
  | path :: rest => do
    if ← isFile path then return some path
    firstFile? rest

end Files

end CachedRoutes
