import CachedRoutes.Code.Invocation
import CachedRoutes.Route
import CachedRoutes.Settings.Basic

/-!
# Which routes are changed

A route is left alone when its path is excluded, when its file exports no `GET` handler, or when the
file calls the caching function already. The path is looked at first.
-/

namespace CachedRoutes.Eligibility

/-- Why a route is left alone. -/
inductive Obstacle where
  /-- Its path contains an excluded text. -/
  | excluded (pattern : String)
  /-- Its file has no `GET` handler. -/
  | noGetHandler
  /-- Its file calls the caching function. -/
  | alreadyCached
  deriving DecidableEq, Repr

/-- The obstacle in words. -/
def Obstacle.reason : Obstacle → String
  | excluded pattern => s!"excluded by policy ({pattern})"
  | noGetHandler => "no GET handler"
  | alreadyCached => "already cached"

/-- What follows the word and the blanks behind it, of which there has to be one. -/
def afterSpaced? (word : String) (text : List Char) : Option (List Char) :=
  match Text.after? word.toList text with
  | some (c :: rest) => if Text.isBlank c then some (Text.trimStart rest) else none
  | _ => none

/-- Does the text name the `GET` handler, with one of the given characters after it? -/
def namesGet (marks : List Char) (text : List Char) : Bool :=
  match Text.after? "GET".toList text with
  | some rest => (Text.trimStart rest).head?.any marks.contains
  | none => false

/-- Does the text declare a function `GET`? -/
def declaresFunction (text : List Char) : Bool :=
  let text := (afterSpaced? "async" text).getD text
  (afterSpaced? "function" text).any (namesGet ['(', '<'])

/-- Does the text declare a variable `GET`? -/
def declaresVariable (text : List Char) : Bool :=
  ((afterSpaced? "const" text).orElse fun _ => afterSpaced? "let" text).any (namesGet [':', '='])

/-- Does the line start an exported `GET` handler? -/
def exportsGet (line : List Char) : Bool :=
  (afterSpaced? "export" (line.dropWhile Text.isIndent)).any fun text =>
    declaresFunction text || declaresVariable text

/-- Does the file export a `GET` handler? -/
def hasGetHandler (text : List Char) : Bool :=
  (Text.lineStarts text).any exportsGet

/-- Does the file call the caching function? -/
def isCached (wrapper : String) (text : List Char) : Bool :=
  Code.callsFunction wrapper.toList text

/-- The first excluded text that the route contains. -/
def excludedBy? (eligibility : Settings.Eligibility) (route : Route) : Option String :=
  eligibility.excluded.find? route.contains

/-- Why the route is left alone, if it is. -/
def obstacle? (eligibility : Settings.Eligibility) (wrapper : String) (route : Route)
    (text : List Char) : Option Obstacle :=
  match excludedBy? eligibility route with
  | some pattern => some (.excluded pattern)
  | none =>
    if !hasGetHandler text then some .noGetHandler
    else if isCached wrapper text then some .alreadyCached
    else none

end CachedRoutes.Eligibility
