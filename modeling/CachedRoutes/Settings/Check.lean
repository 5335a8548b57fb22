import CachedRoutes.Policy.Catalog

/-!
# Checking settings

Settings that can be read may still make no sense: a name that is no identifier cannot be written
into code, and a zero duration or an empty keyword is a mistake. `violation?` finds the first such
thing, section by section.
-/

namespace CachedRoutes.Settings

/-- Is the text an identifier: an ASCII letter, `_` or `$`, then such characters or digits? -/
def isIdentifier (text : String) : Bool :=
  match text.toList with
  | [] => false
  | c :: rest =>
    (c.isAlpha || c == '_' || c == '$')
      && rest.all fun c => c.isAlphanum || c == '_' || c == '$'

/-- What can be wrong with settings. -/
inductive Violation where
  | blankRouteFile
  | policy (flaw : Catalog.Flaw)
  | badWrapper (text : String)
  | badRegistry (text : String)
  | noClients
  | badClient (text : String)
  | badImport (entry : RequiredImport)
  deriving DecidableEq, Repr

/-- The violation in words. -/
def Violation.reason : Violation → String
  | blankRouteFile => "discovery.route_file must not be empty"
  | policy flaw => flaw.reason
  | badWrapper text => s!"wrap.wrapper '{text}' is not a valid identifier"
  | badRegistry text => s!"wrap.tag_registry '{text}' is not a valid identifier"
  | noClients => "wrap.clients must list at least one client"
  | badClient text => s!"wrap.clients: '{text}' is not a valid identifier"
  | badImport entry => s!"imports.required: invalid entry '{entry.symbol}' from '{entry.specifier}'"

/-- Is something wrong with a needed import? -/
def isBadImport (entry : RequiredImport) : Bool :=
  !isIdentifier entry.symbol || Text.allBlank entry.specifier.toList

/-- The first thing that is wrong with the wrapping section. -/
def Wrapping.violation? (wrapping : Wrapping) : Option Violation :=
  if !isIdentifier wrapping.wrapper then some (.badWrapper wrapping.wrapper)
  else if !isIdentifier wrapping.registry then some (.badRegistry wrapping.registry)
  else if wrapping.clients.isEmpty then some .noClients
  else (wrapping.clients.find? fun client => !isIdentifier client).map .badClient

/-- The first thing that is wrong with the settings. -/
def violation? (settings : Settings) : Option Violation :=
  if Text.allBlank settings.discovery.routeFile.toList then some .blankRouteFile
  else
    match Catalog.flaw? settings.policy with
    | some flaw => some (.policy flaw)
    | none =>
      match settings.wrap.violation? with
      | some violation => some violation
      | none => (settings.imports.required.find? isBadImport).map .badImport

end CachedRoutes.Settings
