import CachedRoutes.Command.Session
import CachedRoutes.Disk.Files
import CachedRoutes.Route
import CachedRoutes.Settings.Basic

/-!
# Finding route files

Below the directory of routes, every regular file with the configured name is a route file, unless
one of the directories on the way to it has a name that is skipped. Links are not followed, except
that the directory of routes itself may be one; then its own name is not looked at. The files are
listed in ascending order of their routes.
-/

namespace CachedRoutes

/-- A file that handles a route. -/
structure RouteFile where
  route : Route
  /-- Where the file is. -/
  path : Path
  deriving DecidableEq, Repr

namespace RouteFile

/-- The route file at a path in the project at `root`. -/
def ofPath (root path : Path) : RouteFile :=
  { route := Route.ofPath root path, path }

/-- Does the file come before or with the other, by route and then by path? -/
def le (a b : RouteFile) : Bool :=
  if a.route.text = b.route.text then !Path.ltComponents b.path.components a.path.components
  else decide (a.route.text < b.route.text)

end RouteFile

namespace Discovery

/-- Is an entry below the directory of routes a route file, by the names on the way to it? -/
def isRouteFile (discovery : Settings.Discovery) (names : List String) (kind : Kind) : Bool :=
  kind == .file && names.getLast? == some discovery.routeFile
    && names.dropLast.all fun name => !discovery.skipDirs.contains name

/-- Is the directory of routes itself skipped? -/
def skipsRoot (discovery : Settings.Discovery) (apiDir : Path) (ownKind : Option Kind) : Bool :=
  ownKind == some .directory
    && discovery.skipDirs.contains (apiDir.fileName?.getD apiDir.text)

/-- The path of an entry, by the names on the way to it. -/
def pathBelow (directory : Path) (names : List String) : Path :=
  names.foldl (fun path name => path.join ⟨name⟩) directory

/-- The route files among the entries below the directory of routes, in order. -/
def routeFiles (discovery : Settings.Discovery) (root apiDir : Path)
    (entries : List (List String × Kind)) : List RouteFile :=
  ((entries.filter fun entry => isRouteFile discovery entry.1 entry.2).map fun entry =>
    RouteFile.ofPath root (pathBelow apiDir entry.1)).mergeSort RouteFile.le

variable {m : Type → Type} [Monad m] [Files m]

/-- The route files of the project at `root`. -/
def discover (discovery : Settings.Discovery) (root : Path) :
    Command.Session m (List RouteFile) := do
  unless ← Files.isDirectory (m := m) root do throw (.rootNotFound root)
  let apiDir := root.join ⟨discovery.apiDir⟩
  unless ← Files.isDirectory (m := m) apiDir do throw (.apiDirNotFound apiDir)
  let ownKind ← (Files.ownKind? apiDir : m _)
  let entries ← (Files.below apiDir : m _)
  let files :=
    if skipsRoot discovery apiDir ownKind then [] else routeFiles discovery root apiDir entries
  Command.Session.log .debug s!"Discovered {files.length} route file(s) under {apiDir.text}"
  return files

end Discovery

end CachedRoutes
