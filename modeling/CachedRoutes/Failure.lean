import CachedRoutes.Path
import CachedRoutes.Policy.Catalog

/-!
# Failures

What can keep a command from being carried out. A failure is a cause; its message and, for some
causes, a hint on what to do are said in one place.
-/

namespace CachedRoutes

/-- Why a command was not carried out. -/
inductive Failure where
  /-- The settings of the file cannot be used. -/
  | invalidSettings (file : Path) (reason : String)
  /-- The policy tables are not sound. -/
  | invalidPolicy (flaw : Catalog.Flaw)
  /-- There is no such tag. -/
  | unknownTag (text : String)
  /-- There is no such strategy. -/
  | unknownStrategy (text : String)
  /-- The project root is no directory. -/
  | rootNotFound (root : Path)
  /-- There is no directory of routes. -/
  | apiDirNotFound (directory : Path)
  /-- A settings file cannot be read. -/
  | unreadableSettings (file : Path)
  /-- A file cannot be written. -/
  | unwritable (file : Path)
  /-- A directory cannot be created. -/
  | uncreatable (directory : Path)
  /-- A settings file is there already. -/
  | alreadyExists (file : Path)
  deriving DecidableEq, Repr

namespace Failure

/-- The failure in words. -/
def message : Failure → String
  | invalidSettings file reason => s!"Invalid configuration at {file.text}: {reason}"
  | invalidPolicy flaw => s!"Invalid policy rule: {flaw.reason}"
  | unknownTag text => s!"Unknown cache tag: {text}"
  | unknownStrategy text =>
    s!"unknown policy strategy '{text}' (expected layered, table or keywords)"
  | rootNotFound root => s!"Route root not found: {root.text}"
  | apiDirNotFound directory => s!"API directory not found under root: {directory.text}"
  | unreadableSettings file => s!"IO error: reading config from {file.text}"
  | unwritable file => s!"IO error: writing {file.text}"
  | uncreatable directory => s!"IO error: creating directory {directory.text}"
  | alreadyExists file => s!"{file.text} already exists. Use --force to overwrite."

/-- What to do about the failure. -/
def hint? : Failure → Option String
  | invalidSettings _ _ => some "Run: routecache config show"
  | apiDirNotFound _ =>
    some "Pass --root pointing at the app directory, or set discovery.api_dir"
  | unknownTag _ => some ("Valid tags: " ++ ", ".intercalate (Tag.all.map Tag.name))
  | _ => none

end Failure

end CachedRoutes
