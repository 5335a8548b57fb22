import CachedRoutes.Path

/-!
# Routes

A route is the path of a handler file below the project root, with `/` between its parts and no
leading `./` or `/`. It is the key of the policy tables and the label in reports. The directories
below the last one named `api` say what the route serves: `[id]` is a parameter, `(group)` only
groups files, and the others are the words of the cache key.
-/

namespace CachedRoutes

/-- A route, by its path below the project root. -/
structure Route where
  /-- The normalised path. -/
  text : String
  deriving DecidableEq, Repr

namespace Route

/-! ## Normal form -/

/-- The text without any leading `./`, as often as it stands there. -/
def dropHere : List Char → List Char
  | '.' :: '/' :: rest => dropHere rest
  | text => text

/-- The normal form of a path text: `/` for every backslash, then no leading `./`, then no leading
`/`. -/
def normalise (text : List Char) : List Char :=
  (dropHere (text.map fun c => if c = '\\' then '/' else c)).dropWhile (· == '/')

/-- The route that a path text denotes. -/
def ofText (text : String) : Route :=
  ⟨String.ofList (normalise text.toList)⟩

/-- The route of the file at `path` in the project at `root`. A path outside of the project keeps
all its components. -/
def ofPath (root path : Path) : Route :=
  let components := (Path.below? root path).getD path.components
  ofText ("/".intercalate (components.map Path.Component.text))

/-! ## Segments -/

/-- The directories of a route, outermost first. -/
def directories (route : Route) : List (List Char) :=
  ((Text.fields '/' route.text.toList).filter (· != [])).dropLast

/-- The directories below the last one named `api`, or all of them when none is. -/
def apiSegments (route : Route) : List (List Char) :=
  (route.directories.reverse.takeWhile (· != ['a', 'p', 'i'])).reverse

/-- The text without any leading `...`, as often as it stands there. -/
def dropDots : List Char → List Char
  | '.' :: '.' :: '.' :: rest => dropDots rest
  | text => text

/-- The parameter that a segment declares: `id` for `[id]`, `slug` for `[...slug]` and
`[[...slug]]`. Brackets around nothing declare none. -/
def parameter? (segment : List Char) : Option (List Char) :=
  let inner? := (Text.between? ['[', '['] [']', ']'] segment).orElse fun _ =>
    Text.between? ['['] [']'] segment
  match inner?.map dropDots with
  | some [] => none
  | other => other

/-- Does the segment only group files? -/
def isGroup (segment : List Char) : Bool :=
  segment.head? == some '(' && segment.getLast? == some ')'

/-- The parameters of a route, in path order. -/
def parameters (route : Route) : List (List Char) :=
  route.apiSegments.filterMap parameter?

/-- The segments that name what the route serves. -/
def keyWords (route : Route) : List (List Char) :=
  route.apiSegments.filter fun segment => (parameter? segment).isNone && !isGroup segment

/-- Does the route's path contain the given text? -/
def contains (route : Route) (text : String) : Bool :=
  Text.contains text.toList route.text.toList

end Route

end CachedRoutes
