import CachedRoutes.Policy.Basic

/-!
# Settings

All that a project can configure, in five sections, each with the values that hold when nothing is
configured. Lists and the route table stand for themselves: giving one replaces the default one.
-/

namespace CachedRoutes

namespace Settings

/-- Where route files are looked for. -/
structure Discovery where
  /-- The directory below the project root that holds the routes. -/
  apiDir : String := "app/api"
  /-- The name of every route file. -/
  routeFile : String := "route.ts"
  /-- Names of directories that are not entered. -/
  skipDirs : List String := ["node_modules", ".next", ".git"]
  deriving DecidableEq, Repr

/-- Routes that contain the keyword are fetched again after so many seconds. -/
structure DurationRule where
  keyword : String
  revalidate : Nat
  deriving DecidableEq, Repr

/-- Routes that contain the keyword are invalidated by the tag. -/
structure TagRule where
  keyword : String
  tag : Tag
  deriving DecidableEq, Repr

/-- The duration rules that hold by default, more specific keywords first. -/
def defaultDurations : List DurationRule :=
  [⟨"search", 60⟩, ⟨"service-requests", 60⟩, ⟨"service-categories", 3600⟩, ⟨"asset-types", 3600⟩,
    ⟨"dashboard", 300⟩, ⟨"assets", 300⟩, ⟨"users", 300⟩, ⟨"profiles", 300⟩, ⟨"analytics", 300⟩,
    ⟨"notifications", 60⟩, ⟨"teams", 300⟩, ⟨"accounts", 300⟩, ⟨"knowledge", 3600⟩]

/-- The tag rules that hold by default, more specific keywords first. -/
def defaultTags : List TagRule :=
  [⟨"ticket", .tickets⟩, ⟨"service-request", .serviceRequests⟩, ⟨"asset", .assets⟩,
    ⟨"user", .users⟩, ⟨"profile", .users⟩, ⟨"dashboard", .dashboard⟩, ⟨"analytics", .analytics⟩,
    ⟨"notification", .notifications⟩, ⟨"team", .teams⟩, ⟨"account", .accounts⟩,
    ⟨"knowledge", .knowledgeBase⟩, ⟨"service", .services⟩]

/-- The exact policies that hold by default, in ascending order of the route texts. -/
def defaultRoutes : List (String × Policy) :=
  [("app/api/asset-types/route.ts", ⟨.assets, 3600, "asset-types"⟩),
    ("app/api/assets/route.ts", ⟨.assets, 300, "assets"⟩),
    ("app/api/check-config/route.ts", ⟨.tickets, 3600, "check-config"⟩),
    ("app/api/profiles/route.ts", ⟨.users, 300, "profiles"⟩),
    ("app/api/search/assets/route.ts", ⟨.assets, 60, "search-assets"⟩),
    ("app/api/search/services/route.ts", ⟨.services, 60, "search-services"⟩),
    ("app/api/search/suggestions/route.ts", ⟨.tickets, 60, "search-suggestions"⟩),
    ("app/api/search/tickets/route.ts", ⟨.tickets, 60, "search-tickets"⟩),
    ("app/api/search/users/route.ts", ⟨.users, 60, "search-users"⟩),
    ("app/api/service-categories/route.ts", ⟨.services, 3600, "service-categories"⟩),
    ("app/api/services/requestable/route.ts", ⟨.services, 300, "services-requestable"⟩),
    ("app/api/users/[id]/route.ts", ⟨.users, 300, "user"⟩)]

/-- How policies are found. -/
structure Policies where
  /-- Which tables are asked. -/
  strategy : Strategy := .layered
  /-- Seconds where no duration rule applies. -/
  defaultRevalidate : Nat := 300
  /-- The tag where no tag rule applies. -/
  defaultTag : Tag := .general
  /-- Duration rules; the first that applies counts. -/
  durations : List DurationRule := defaultDurations
  /-- Tag rules; the first that applies counts. -/
  tags : List TagRule := defaultTags
  /-- Exact policies by route text, in ascending order of the texts. -/
  routes : List (String × Policy) := defaultRoutes
  deriving DecidableEq, Repr

/-- Which routes are left alone. -/
structure Eligibility where
  /-- Routes that contain one of these texts are left alone. -/
  excluded : List String := ["auth/", "create-", "token-sync", "reset-password"]
  deriving DecidableEq, Repr

/-- A name that the changed code needs, and the module that exports it. -/
structure RequiredImport where
  /-- The imported name. -/
  symbol : String
  /-- The module specifier. -/
  specifier : String
  deriving DecidableEq, Repr

/-- How imports are added. -/
structure Imports where
  /-- The module whose import marks where new imports go. -/
  anchor : String := "next/server"
  /-- The needed imports, in order. -/
  required : List RequiredImport :=
    [⟨"unstable_cache", "next/cache"⟩, ⟨"CACHE_TAGS", "@/lib/cache"⟩]
  deriving DecidableEq, Repr

/-- How queries are wrapped. -/
structure Wrapping where
  /-- Are queries wrapped at all, or only imports added? -/
  enabled : Bool := true
  /-- The caching function. -/
  wrapper : String := "unstable_cache"
  /-- The object that holds the tags. -/
  registry : String := "CACHE_TAGS"
  /-- The names that a query may start from. -/
  clients : List String := ["supabase", "client", "query"]
  /-- The name of the object that holds the route parameters. -/
  params : String := "params"
  deriving DecidableEq, Repr

end Settings

/-- The settings of a project. -/
structure Settings where
  discovery : Settings.Discovery := {}
  policy : Settings.Policies := {}
  eligibility : Settings.Eligibility := {}
  imports : Settings.Imports := {}
  wrap : Settings.Wrapping := {}
  deriving DecidableEq, Repr

end CachedRoutes
