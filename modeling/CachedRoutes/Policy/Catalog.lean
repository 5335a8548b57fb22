import CachedRoutes.Route
import CachedRoutes.Settings.Basic
import CachedRoutes.Text.Blank

/-!
# The policy catalog

A catalog is a checked set of policy tables. It gives every route a policy: the exact one of its
table if the strategy asks the table and the route is listed; otherwise a tag and a duration from
the first keyword of each list that the route contains, or the defaults, and a key made of the
words of the route. Several texts of the table may denote one route; the last of them in ascending
order counts.
-/

namespace CachedRoutes

/-- A checked set of policy tables. -/
structure Catalog where
  strategy : Strategy
  /-- The exact policies, each route once. -/
  routes : List (Route × Policy)
  durations : List Settings.DurationRule
  tags : List Settings.TagRule
  defaultRevalidate : Nat
  defaultTag : Tag
  deriving DecidableEq, Repr

namespace Catalog

/-- What can be wrong with policy tables. -/
inductive Flaw where
  | zeroDefault
  | zeroDuration (keyword : String)
  | emptyDurationKeyword (revalidate : Nat)
  | emptyTagKeyword
  | zeroRoute (route : Route)
  | blankKey (route : Route)
  deriving DecidableEq, Repr

/-- The flaw in words. -/
def Flaw.reason : Flaw → String
  | zeroDefault => "policy.default_revalidate must be positive"
  | zeroDuration keyword => s!"policy.durations: revalidate for '{keyword}' must be positive"
  | emptyDurationKeyword revalidate =>
    s!"policy.durations: keyword must not be empty ({revalidate}s rule)"
  | emptyTagKeyword => "policy.tags: keyword must not be empty"
  | zeroRoute route => s!"policy.routes.\"{route.text}\": revalidate must be positive"
  | blankKey route => s!"policy.routes.\"{route.text}\": cache_key must not be empty"

/-! ## Building -/

/-- Sets the policy of a route, in its place if the route is listed already. -/
def put (route : Route) (policy : Policy) : List (Route × Policy) → List (Route × Policy)
  | [] => [(route, policy)]
  | entry :: rest =>
    if entry.1 = route then (route, policy) :: rest else entry :: put route policy rest

/-- The exact table of routes: of several texts for one route the last counts. -/
def exactTable (routes : List (String × Policy)) : List (Route × Policy) :=
  routes.foldl (fun table entry => put (Route.ofText entry.1) entry.2 table) []

/-- What is wrong with an entry of the exact table. -/
def entryFlaw? (entry : Route × Policy) : Option Flaw :=
  if entry.2.revalidate = 0 then some (.zeroRoute entry.1)
  else if Text.allBlank entry.2.keyBase.toList then some (.blankKey entry.1)
  else none

/-- The first thing that is wrong with the tables. -/
def flaw? (policies : Settings.Policies) : Option Flaw :=
  if policies.defaultRevalidate = 0 then some .zeroDefault
  else
    match policies.durations.find? (·.revalidate == 0) with
    | some rule => some (.zeroDuration rule.keyword)
    | none =>
      match policies.durations.find? (·.keyword.isEmpty) with
      | some rule => some (.emptyDurationKeyword rule.revalidate)
      | none =>
        if policies.tags.any (·.keyword.isEmpty) then some .emptyTagKeyword
        else (exactTable policies.routes).findSome? entryFlaw?

/-- The catalog of the given tables, if nothing is wrong with them. -/
def ofSettings (policies : Settings.Policies) : Except Flaw Catalog :=
  match flaw? policies with
  | some flaw => .error flaw
  | none =>
    .ok
      { strategy := policies.strategy
        routes := exactTable policies.routes
        durations := policies.durations
        tags := policies.tags
        defaultRevalidate := policies.defaultRevalidate
        defaultTag := policies.defaultTag }

/-! ## Resolving -/

/-- The policy of a listed route. -/
def tabled? (catalog : Catalog) (route : Route) : Option Policy :=
  (catalog.routes.find? (·.1 == route)).map (·.2)

/-- The tag of the first keyword that the route contains. -/
def tagOf (catalog : Catalog) (route : Route) : Tag :=
  match catalog.tags.find? fun rule => route.contains rule.keyword with
  | some rule => rule.tag
  | none => catalog.defaultTag

/-- The duration of the first keyword that the route contains. -/
def durationOf (catalog : Catalog) (route : Route) : Nat :=
  match catalog.durations.find? fun rule => route.contains rule.keyword with
  | some rule => rule.revalidate
  | none => catalog.defaultRevalidate

/-- The key base made of a route's words. -/
def keyBaseOf (route : Route) : String :=
  match route.keyWords with
  | [] => "api"
  | words => String.ofList (['-'].intercalate words)

/-- The policy of a route that the exact table does not give. -/
def infer (catalog : Catalog) (route : Route) : Policy :=
  match catalog.strategy with
  | .table =>
    { tag := catalog.defaultTag
      revalidate := catalog.defaultRevalidate
      keyBase := keyBaseOf route }
  | .layered | .keywords =>
    { tag := catalog.tagOf route
      revalidate := catalog.durationOf route
      keyBase := keyBaseOf route }

/-- The listed policy of a route, where the strategy asks the table. -/
def listed? (catalog : Catalog) (route : Route) : Option Policy :=
  if catalog.strategy = .keywords then none else catalog.tabled? route

/-- The policy of a route. -/
def resolve (catalog : Catalog) (route : Route) : Policy :=
  (catalog.listed? route).getD (catalog.infer route)

/-- What the log says about the policy of a route. -/
def note (catalog : Catalog) (route : Route) : String :=
  match catalog.listed? route with
  | some policy => s!"Policy for {route.text} from exact table: {policy.describe}"
  | none => s!"Policy for {route.text} inferred: {(catalog.infer route).describe}"

end Catalog

end CachedRoutes
