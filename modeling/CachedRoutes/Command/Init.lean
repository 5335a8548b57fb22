import CachedRoutes.Command.Arguments
import CachedRoutes.Command.Session
import CachedRoutes.Disk.Files

/-!
# A settings file for a project

Writes a settings file with every setting commented out, so that it changes nothing until a line is
uncommented. An existing file is left alone unless overwriting is asked for.
-/

namespace CachedRoutes.Command.Init

/-- The name of a project's settings file. -/
def fileName : String := ".routecache.toml"

/-- The lines of a new settings file. -/
def templateLines : List String :=
  [ "# routecache project configuration",
    "# Settings here override your global config (~/.config/routecache/config.toml).",
    "# Tables merge key by key; lists and values replace the global ones.",
    "",
    "[discovery]",
    "# api_dir = \"app/api\"",
    "# route_file = \"route.ts\"",
    "# skip_dirs = [\"node_modules\", \".next\", \".git\"]",
    "",
    "[policy]",
    "# strategy = \"layered\"          # layered, table, keywords",
    "# default_revalidate = 300",
    "# default_tag = \"general\"",
    "# durations = [",
    "#   \x7b keyword = \"search\", revalidate = 60 \x7d,",
    "#   \x7b keyword = \"knowledge\", revalidate = 3600 \x7d,",
    "# ]",
    "# tags = [",
    "#   \x7b keyword = \"ticket\", tag = \"tickets\" \x7d,",
    "#   \x7b keyword = \"service\", tag = \"services\" \x7d,",
    "# ]",
    "",
    "# Exact per-route policies. Defining any route replaces the built-in table.",
    "# [policy.routes.\"app/api/users/[id]/route.ts\"]",
    "# tag = \"users\"",
    "# revalidate = 300",
    "# cache_key = \"user\"",
    "",
    "[eligibility]",
    "# excluded = [\"auth/\", \"create-\", \"token-sync\", \"reset-password\"]",
    "",
    "[imports]",
    "# anchor_module = \"next/server\"",
    "# required = [",
    "#   \x7b symbol = \"unstable_cache\", module = \"next/cache\" \x7d,",
    "#   \x7b symbol = \"CACHE_TAGS\", module = \"@/lib/cache\" \x7d,",
    "# ]",
    "",
    "[wrap]",
    "# enabled = true",
    "# wrapper = \"unstable_cache\"",
    "# tag_registry = \"CACHE_TAGS\"",
    "# clients = [\"supabase\", \"client\", \"query\"]",
    "# params_ident = \"params\"" ]

/-- The text of a new settings file. -/
def template : String :=
  String.join (templateLines.map (· ++ "\n"))

variable {m : Type → Type} [Monad m] [Files m]

/-- Writes a new settings file. -/
def run (options : InitOptions) (workingDirectory : Path) : Session m Unit := do
  let directory := options.directory.getD workingDirectory
  let file := directory.join ⟨fileName⟩
  if (← Files.present (m := m) file) && !options.force then throw (.alreadyExists file)
  unless ← Files.present (m := m) directory do
    if let .error _ ← (Files.makeDirectories directory : m _) then throw (.uncreatable directory)
  if let .error _ ← (Files.write file template : m _) then throw (.unwritable file)
  Session.write [okLine "Created project config" file.text]

end CachedRoutes.Command.Init
