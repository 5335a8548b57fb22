/-!
# Policies

A policy says for a route how many seconds its data may be served from the cache, which tag
invalidates it, and which word its cache keys start with. Tags are those of the application's tag
registry; a strategy says which tables are asked for a policy.
-/

namespace CachedRoutes

/-- The invalidation tags of the application. -/
inductive Tag where
  | tickets
  | users
  | services
  | serviceRequests
  | assets
  | dashboard
  | analytics
  | notifications
  | teams
  | accounts
  | knowledgeBase
  /-- The fallback; no member of the registry. -/
  | general
  deriving DecidableEq, Repr

namespace Tag

/-- All tags. -/
def all : List Tag :=
  [tickets, users, services, serviceRequests, assets, dashboard, analytics, notifications, teams,
    accounts, knowledgeBase, general]

/-- The name of a tag in settings and reports. -/
def name : Tag → String
  | tickets => "tickets"
  | users => "users"
  | services => "services"
  | serviceRequests => "service-requests"
  | assets => "assets"
  | dashboard => "dashboard"
  | analytics => "analytics"
  | notifications => "notifications"
  | teams => "teams"
  | accounts => "accounts"
  | knowledgeBase => "knowledge-base"
  | general => "general"

/-- The property of the registry object that holds the tag. -/
def member? : Tag → Option String
  | serviceRequests => some "serviceRequests"
  | knowledgeBase => some "knowledgeBase"
  | general => none
  | tag => some tag.name

/-- The source expression of a tag: a member of `registry`, or the quoted name. -/
def expression (tag : Tag) (registry : String) : String :=
  match tag.member? with
  | some member => registry ++ "." ++ member
  | none => "'" ++ tag.name ++ "'"

/-- The tag with the given name. -/
def ofName? (text : String) : Option Tag :=
  all.find? fun tag => tag.name == text

/-- The tag with the given name or registry member. -/
def ofText? (text : String) : Option Tag :=
  all.find? fun tag => tag.name == text || tag.member? == some text

end Tag

/-- Which tables are asked for the policy of a route. -/
inductive Strategy where
  /-- The exact table, then the keywords. -/
  | layered
  /-- The exact table only; other routes get the defaults. -/
  | table
  /-- The keywords only. -/
  | keywords
  deriving DecidableEq, Repr

namespace Strategy

/-- The name of a strategy. -/
def name : Strategy → String
  | layered => "layered"
  | table => "table"
  | keywords => "keywords"

/-- The strategy with the given name. -/
def ofName? (text : String) : Option Strategy :=
  [layered, table, keywords].find? fun strategy => strategy.name == text

end Strategy

/-- The caching decision for one route. -/
structure Policy where
  /-- What invalidates the data. -/
  tag : Tag
  /-- Seconds until the data is fetched again. -/
  revalidate : Nat
  /-- What the cache keys start with. -/
  keyBase : String
  deriving DecidableEq, Repr

/-- The policy in one line, for reports and logs. -/
def Policy.describe (policy : Policy) : String :=
  s!"tag={policy.tag.name} revalidate={policy.revalidate}s key={policy.keyBase}"

end CachedRoutes
