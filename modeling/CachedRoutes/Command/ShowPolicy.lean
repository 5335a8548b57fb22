import CachedRoutes.Command.Arguments
import CachedRoutes.Command.Session
import CachedRoutes.Json
import CachedRoutes.Settings.Basic

/-!
# Showing policies

Shows the policy of each given route, without looking at any file.
-/

namespace CachedRoutes.Command.ShowPolicy

/-- A route with its policy and the source expression of its tag. -/
structure Row where
  route : Route
  policy : Policy
  expression : String
  deriving DecidableEq, Repr

/-- The rows of the given routes. -/
def rows (catalog : Catalog) (registry : String) (routes : List String) : List Row :=
  routes.map fun text =>
    let route := Route.ofText text
    let policy := catalog.resolve route
    { route, policy, expression := policy.tag.expression registry }

/-- A row as an object. -/
def Row.json (row : Row) : Json :=
  .object
    [ ("route", .string row.route.text),
      ("tag", .string row.policy.tag.name),
      ("revalidate_secs", .number row.policy.revalidate),
      ("cache_key_base", .string row.policy.keyBase),
      ("tag_expression", .string row.expression) ]

/-- A row for programs. -/
def Row.plain (row : Row) : String :=
  "\t".intercalate
    [row.route.text, row.policy.tag.name, toString row.policy.revalidate, row.policy.keyBase]

/-- A row for people. -/
def Row.table (row : Row) : List String :=
  [ "", row.route.text, s!"  tag: {row.expression}", s!"  revalidate: {row.policy.revalidate}s",
    s!"  cache key: {row.policy.keyBase}" ]

/-- The lines of the report. -/
def report (format : Format) (strategy : Strategy) (rows : List Row) : List Line :=
  match format with
  | .json => [.out (Json.array (rows.map Row.json)).pretty]
  | .plain => rows.map fun row => .out row.plain
  | .table => infoLine s!"Policy strategy: {strategy.name}" :: (rows.flatMap Row.table).map .out

variable {m : Type → Type} [Monad m]

/-- Shows the policies of routes. -/
def run (options : PolicyOptions) (settings : Settings) : Session m Unit := do
  let catalog ←
    match Catalog.ofSettings settings.policy with
    | .ok catalog => pure catalog
    | .error flaw => throw (.invalidPolicy flaw)
  let catalog := { catalog with strategy := options.strategy.getD catalog.strategy }
  let rows := rows catalog settings.wrap.registry options.routes
  Session.write (rows.map fun row => .log .debug (catalog.note row.route))
  Session.write (report options.format catalog.strategy rows)

end CachedRoutes.Command.ShowPolicy
