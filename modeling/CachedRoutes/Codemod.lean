import CachedRoutes.Eligibility
import CachedRoutes.Import.Ensure
import CachedRoutes.Policy.Catalog
import CachedRoutes.Query.Wrap

/-!
# The codemod

One run on one file: a route that may be changed gets its policy, then its imports, then its query
is wrapped. Every run ends in one of six results, with a reason where there is more to say, and with
new text when it differs from the old. Nothing is read or written here.
-/

namespace CachedRoutes

/-- How a run on one file ends. -/
inductive Result where
  | alreadyCached
  | excluded
  | noGetHandler
  | importsAdded
  | needsManualReview
  | wrapped
  deriving DecidableEq, Repr

namespace Result

/-- The result in words, for people. -/
def label : Result → String
  | alreadyCached => "already cached"
  | excluded => "excluded"
  | noGetHandler => "no GET handler"
  | importsAdded => "imports added"
  | needsManualReview => "needs manual review"
  | wrapped => "wrapped"

/-- The name of the result, for programs. -/
def name : Result → String
  | alreadyCached => "already_cached"
  | excluded => "excluded"
  | noGetHandler => "no_get_handler"
  | importsAdded => "imports_added"
  | needsManualReview => "needs_manual_review"
  | wrapped => "wrapped"

/-- Did the run bring the file closer to being cached? -/
def isSuccess : Result → Bool
  | wrapped | importsAdded => true
  | _ => false

/-- Was the file left alone as expected? -/
def isSkip : Result → Bool
  | alreadyCached | excluded | noGetHandler => true
  | _ => false

/-- The result of a run that an obstacle stops. -/
def ofObstacle : Eligibility.Obstacle → Result
  | .excluded _ => excluded
  | .noGetHandler => noGetHandler
  | .alreadyCached => alreadyCached

end Result

/-- What a run on one file comes to. -/
structure Outcome where
  route : Route
  result : Result
  /-- More about the result. -/
  reason : Option String
  /-- The policy, for a route that may be changed. -/
  policy : Option Policy
  /-- The new text, if it differs from the old. -/
  content : Option (List Char)
  /-- What the log says about the run, in order. -/
  notes : List String
  deriving DecidableEq, Repr

/-- Does the run change the file? -/
def Outcome.changed (outcome : Outcome) : Bool :=
  outcome.content.isSome

/-- The codemod with its tables: what to do with any route and text. -/
structure Codemod where
  catalog : Catalog
  eligibility : Settings.Eligibility
  imports : Settings.Imports
  wrapping : Settings.Wrapping
  deriving DecidableEq, Repr

namespace Codemod

/-- The codemod of the given settings, if the policy tables are sound. -/
def ofSettings (settings : Settings) : Except Catalog.Flaw Codemod := do
  let catalog ← Catalog.ofSettings settings.policy
  return {
    catalog
    eligibility := settings.eligibility
    imports := settings.imports
    wrapping := settings.wrap
  }

/-- The codemod with another strategy. -/
def withStrategy (codemod : Codemod) (strategy : Strategy) : Codemod :=
  { codemod with catalog := { codemod.catalog with strategy } }

/-- The codemod with wrapping switched on or off. -/
def withWrapping (codemod : Codemod) (enabled : Bool) : Codemod :=
  { codemod with wrapping := { codemod.wrapping with enabled } }

/-- What the import and wrap stages come to. -/
structure Edit where
  result : Result
  reason : Option String
  text : List Char
  notes : List String
  deriving DecidableEq, Repr

/-- The import stage alone. -/
def importsOnly (text : List Char) (ensured : Import.Ensured) : Edit :=
  if ensured.text != text then
    { result := .importsAdded, reason := none, text := ensured.text, notes := [] }
  else
    { result := .needsManualReview, reason := some "imports present; wrap the query manually",
      text := ensured.text, notes := [] }

/-- The wrap stage, on a text whose imports are complete. -/
def wrapStage (codemod : Codemod) (route : Route) (policy : Policy) (text : List Char)
    (ensured : Import.Ensured) : Edit :=
  let attempt := Query.wrap codemod.wrapping route policy ensured.text
  let notes := Query.notes codemod.wrapping route ensured.text attempt
  match attempt with
  | .wrapped query wrapped =>
    { result := .wrapped, reason := some s!"{query.shape.name} query", text := wrapped, notes }
  | .alreadyWrapped =>
    { result := .alreadyCached, reason := some "already cached", text := ensured.text, notes }
  | .abstained why =>
    if ensured.text != text then
      { result := .importsAdded, reason := some s!"query not wrapped: {why.reason}",
        text := ensured.text, notes }
    else
      { result := .needsManualReview, reason := some why.reason, text := ensured.text, notes }

/-- The stages behind the policy. -/
def edit (codemod : Codemod) (route : Route) (policy : Policy) (text : List Char)
    (ensured : Import.Ensured) : Edit :=
  if !codemod.wrapping.enabled then importsOnly text ensured
  else
    match Import.missing codemod.imports ensured.text with
    | [] => wrapStage codemod route policy text ensured
    | missing =>
      let names := ", ".intercalate (missing.map (·.symbol))
      { result := .needsManualReview, reason := some s!"required imports missing: {names}",
        text := ensured.text, notes := [] }

/-- A run on one file. -/
def run (codemod : Codemod) (route : Route) (text : List Char) : Outcome :=
  match Eligibility.obstacle? codemod.eligibility codemod.wrapping.wrapper route text with
  | some obstacle =>
    { route, result := .ofObstacle obstacle, reason := some obstacle.reason, policy := none,
      content := none, notes := [s!"{route.text}: {obstacle.reason}"] }
  | none =>
    let policy := codemod.catalog.resolve route
    let ensured := Import.ensure codemod.imports text
    let edit := codemod.edit route policy text ensured
    { route, result := edit.result, reason := edit.reason, policy := some policy,
      content := if edit.text = text then none else some edit.text,
      notes := codemod.catalog.note route :: ensured.steps.map (·.note) ++ edit.notes }

end Codemod

end CachedRoutes
