/-!
# Shapes of a query

Only chains of read methods are cached, and only in three shapes: a single row, an ordered list, or
a plain selection. A chain starts with `from`, except on a client that already holds a query.
-/

namespace CachedRoutes.Query

/-- What a chain of calls fetches. -/
inductive Shape where
  /-- The chain ends by picking one row. -/
  | singleRow
  /-- The chain orders or cuts its rows. -/
  | orderedList
  /-- The chain selects and filters only. -/
  | select
  deriving DecidableEq, Repr

/-- The name of a shape in reports. -/
def Shape.name : Shape → String
  | .singleRow => "single-row"
  | .orderedList => "ordered-list"
  | .select => "select"

/-- The methods that read and change nothing. -/
def readMethods : List String :=
  ["from", "select", "eq", "neq", "gt", "gte", "lt", "lte", "like", "ilike", "is", "in",
    "contains", "containedBy", "overlaps", "match", "not", "or", "filter", "textSearch", "order",
    "range", "limit", "single", "maybeSingle"]

/-- Clients that hold a query already. -/
def prebuiltClients : List String :=
  ["query"]

/-- Does the method pick one row? -/
def picksRow (method : String) : Bool :=
  ["single", "maybeSingle"].contains method

/-- Does the method order or cut the rows? -/
def ordersRows (method : String) : Bool :=
  ["order", "range", "limit"].contains method

/-- The shape of a chain of methods on a client, if it is one that may be cached. -/
def shape? (client : String) (methods : List String) : Option Shape :=
  let rooted := methods.head? == some "from"
  if !methods.all readMethods.contains then none
  else if !rooted && !prebuiltClients.contains client then none
  else if methods.tail.contains "from" then none
  else if methods.any picksRow then
    if methods.dropLast.any picksRow then none else some .singleRow
  else if methods.any ordersRows then some .orderedList
  else if rooted then some .select
  else none

end CachedRoutes.Query
