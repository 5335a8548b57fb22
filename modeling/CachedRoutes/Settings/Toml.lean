import CachedRoutes.Settings.Check
import CachedRoutes.Toml.Overlay
import CachedRoutes.Toml.Printer

/-!
# Settings as TOML

Reading settings from a table and writing them as one. Everything that is absent has its default;
only the rules, the exact policies and the needed imports have to be complete. Unknown keys are
passed over. A section may also be given as an array of its fields in order, a text as a date, and a
name of a closed list as a table with that name as its only key.
-/

namespace CachedRoutes.Settings

open Toml

/-! ## Reading -/

/-- A text; a moment counts as its normal form. -/
def text? : Value → Option String
  | .string text => some text
  | .moment written => some written
  | _ => none

/-- A natural number below 2^32. -/
def natural? : Value → Option Nat
  | .integer n => if 0 ≤ n ∧ n < 4294967296 then some n.toNat else none
  | _ => none

/-- A truth value. -/
def flag? : Value → Option Bool
  | .boolean b => some b
  | _ => none

/-- A list. -/
def list? {α : Type} (item? : Value → Option α) : Value → Option (List α)
  | .array items => items.mapM item?
  | _ => none

/-- Is the value a table or an array with nothing in it? -/
def isVoid : Value → Bool
  | .table [] => true
  | .array [] => true
  | _ => false

/-- A name of a closed list. -/
def name? {α : Type} (ofName? : String → Option α) : Value → Option α
  | .string text => ofName? text
  | .table [(key, value)] => if isVoid value then ofName? key else none
  | _ => none

/-- The fields of a section, by key or, in an array, by position. -/
def fields? (names : List String) : Value → Option (List (Option Value))
  | .table entries => some (names.map fun name => lookup name entries)
  | .array items =>
    if items.length ≤ names.length then
      some (items.map some ++ List.replicate (names.length - items.length) none)
    else none
  | _ => none

/-- A field that has a default. -/
def orDefault {α : Type} (fields : List (Option Value)) (index : Nat) (read? : Value → Option α)
    (default : α) : Option α :=
  match fields[index]? with
  | some (some value) => read? value
  | _ => some default

/-- A field that has to be there. -/
def needed {α : Type} (fields : List (Option Value)) (index : Nat) (read? : Value → Option α) :
    Option α :=
  match fields[index]? with
  | some (some value) => read? value
  | _ => none

/-- The keys of the sections, in order. -/
def sectionKeys : List String :=
  ["discovery", "policy", "eligibility", "imports", "wrap"]

/-- The keys of the discovery section, in order. -/
def Discovery.keys : List String :=
  ["api_dir", "route_file", "skip_dirs"]

/-- Reads the discovery section. -/
def Discovery.ofToml? (value : Value) : Option Discovery := do
  let fields ← fields? keys value
  let unset : Discovery := {}
  return {
    apiDir := ← orDefault fields 0 text? unset.apiDir
    routeFile := ← orDefault fields 1 text? unset.routeFile
    skipDirs := ← orDefault fields 2 (list? text?) unset.skipDirs
  }

/-- Reads a duration rule. -/
def DurationRule.ofToml? (value : Value) : Option DurationRule := do
  let fields ← fields? ["keyword", "revalidate"] value
  return { keyword := ← needed fields 0 text?, revalidate := ← needed fields 1 natural? }

/-- Reads a tag rule. -/
def TagRule.ofToml? (value : Value) : Option TagRule := do
  let fields ← fields? ["keyword", "tag"] value
  return { keyword := ← needed fields 0 text?, tag := ← needed fields 1 (name? Tag.ofName?) }

/-- Reads an exact policy. -/
def policyOfToml? (value : Value) : Option Policy := do
  let fields ← fields? ["tag", "revalidate", "cache_key"] value
  return {
    tag := ← needed fields 0 (name? Tag.ofName?)
    revalidate := ← needed fields 1 natural?
    keyBase := ← needed fields 2 text?
  }

/-- Puts an entry into a list in ascending order of keys. -/
def insertSorted {α : Type} (entry : String × α) : List (String × α) → List (String × α)
  | [] => [entry]
  | first :: rest =>
    if entry.1 < first.1 then entry :: first :: rest else first :: insertSorted entry rest

/-- The entries in ascending order of keys. -/
def sortEntries {α : Type} (entries : List (String × α)) : List (String × α) :=
  entries.foldr insertSorted []

/-- Reads the table of exact policies. -/
def routesOfToml? : Value → Option (List (String × Policy))
  | .table entries =>
    (sortEntries entries).mapM fun entry => do return (entry.1, ← policyOfToml? entry.2)
  | _ => none

/-- The keys of the policy section, in order. -/
def Policies.keys : List String :=
  ["strategy", "default_revalidate", "default_tag", "durations", "tags", "routes"]

/-- Reads the policy section. -/
def Policies.ofToml? (value : Value) : Option Policies := do
  let fields ← fields? keys value
  let unset : Policies := {}
  return {
    strategy := ← orDefault fields 0 (name? Strategy.ofName?) unset.strategy
    defaultRevalidate := ← orDefault fields 1 natural? unset.defaultRevalidate
    defaultTag := ← orDefault fields 2 (name? Tag.ofName?) unset.defaultTag
    durations := ← orDefault fields 3 (list? DurationRule.ofToml?) unset.durations
    tags := ← orDefault fields 4 (list? TagRule.ofToml?) unset.tags
    routes := ← orDefault fields 5 routesOfToml? unset.routes
  }

/-- Reads the eligibility section. -/
def Eligibility.ofToml? (value : Value) : Option Eligibility := do
  let fields ← fields? ["excluded"] value
  let unset : Eligibility := {}
  return { excluded := ← orDefault fields 0 (list? text?) unset.excluded }

/-- Reads a needed import. -/
def RequiredImport.ofToml? (value : Value) : Option RequiredImport := do
  let fields ← fields? ["symbol", "module"] value
  return { symbol := ← needed fields 0 text?, specifier := ← needed fields 1 text? }

/-- Reads the imports section. -/
def Imports.ofToml? (value : Value) : Option Imports := do
  let fields ← fields? ["anchor_module", "required"] value
  let unset : Imports := {}
  return {
    anchor := ← orDefault fields 0 text? unset.anchor
    required := ← orDefault fields 1 (list? RequiredImport.ofToml?) unset.required
  }

/-- The keys of the wrapping section, in order. -/
def Wrapping.keys : List String :=
  ["enabled", "wrapper", "tag_registry", "clients", "params_ident"]

/-- Reads the wrapping section. -/
def Wrapping.ofToml? (value : Value) : Option Wrapping := do
  let fields ← fields? keys value
  let unset : Wrapping := {}
  return {
    enabled := ← orDefault fields 0 flag? unset.enabled
    wrapper := ← orDefault fields 1 text? unset.wrapper
    registry := ← orDefault fields 2 text? unset.registry
    clients := ← orDefault fields 3 (list? text?) unset.clients
    params := ← orDefault fields 4 text? unset.params
  }

/-- Reads settings. -/
def ofToml? (value : Value) : Option Settings := do
  let fields ← fields? sectionKeys value
  return {
    discovery := ← orDefault fields 0 Discovery.ofToml? {}
    policy := ← orDefault fields 1 Policies.ofToml? {}
    eligibility := ← orDefault fields 2 Eligibility.ofToml? {}
    imports := ← orDefault fields 3 Imports.ofToml? {}
    wrap := ← orDefault fields 4 Wrapping.ofToml? {}
  }

/-! ## Loading -/

/-- What can be wrong with documents of settings. -/
inductive Fault where
  /-- The text is no TOML document. -/
  | notToml
  /-- The values do not fit the settings. -/
  | illTyped
  /-- The settings make no sense. -/
  | violation (violation : Violation)
  deriving DecidableEq, Repr

/-- The settings of a table that is merged already. -/
def ofMerged (merged : Value) : Except Fault Settings :=
  match ofToml? merged with
  | none => .error .illTyped
  | some settings =>
    match settings.violation? with
    | some violation => .error (.violation violation)
    | none => .ok settings

/-- The table of a document; without a document it is empty. -/
def tableOf (document? : Option String) : Except Fault Value :=
  match document? with
  | none => .ok (.table [])
  | some document =>
    match parse? document with
    | some table => .ok table
    | none => .error .notToml

/-- A list of texts. -/
def textsToml (texts : List String) : Value :=
  .array (texts.map .string)

/-- A list of tables. -/
def tablesToml {α : Type} (write : α → List (String × Value)) (items : List α) : Value :=
  .array (items.map fun item => .table (write item))

/-- The entries of the discovery section. -/
def Discovery.toToml (discovery : Discovery) : List (String × Value) :=
  [ ("api_dir", .string discovery.apiDir),
    ("route_file", .string discovery.routeFile),
    ("skip_dirs", textsToml discovery.skipDirs) ]

/-- The entries of a duration rule. -/
def DurationRule.toToml (rule : DurationRule) : List (String × Value) :=
  [("keyword", .string rule.keyword), ("revalidate", .integer rule.revalidate)]

/-- The entries of a tag rule. -/
def TagRule.toToml (rule : TagRule) : List (String × Value) :=
  [("keyword", .string rule.keyword), ("tag", .string rule.tag.name)]

/-- The entries of an exact policy. -/
def policyToToml (policy : Policy) : List (String × Value) :=
  [ ("tag", .string policy.tag.name),
    ("revalidate", .integer policy.revalidate),
    ("cache_key", .string policy.keyBase) ]

/-- The table of exact policies. -/
def routesToToml (routes : List (String × Policy)) : Value :=
  .table (routes.map fun entry => (entry.1, .table (policyToToml entry.2)))

/-- The entries of the policy section. -/
def Policies.toToml (policies : Policies) : List (String × Value) :=
  [ ("strategy", .string policies.strategy.name),
    ("default_revalidate", .integer policies.defaultRevalidate),
    ("default_tag", .string policies.defaultTag.name),
    ("durations", tablesToml DurationRule.toToml policies.durations),
    ("tags", tablesToml TagRule.toToml policies.tags),
    ("routes", routesToToml policies.routes) ]

/-- The entries of the eligibility section. -/
def Eligibility.toToml (eligibility : Eligibility) : List (String × Value) :=
  [("excluded", textsToml eligibility.excluded)]

/-- The entries of a needed import. -/
def RequiredImport.toToml (required : RequiredImport) : List (String × Value) :=
  [("symbol", .string required.symbol), ("module", .string required.specifier)]

/-- The entries of the imports section. -/
def Imports.toToml (imports : Imports) : List (String × Value) :=
  [ ("anchor_module", .string imports.anchor),
    ("required", tablesToml RequiredImport.toToml imports.required) ]

/-- The entries of the wrapping section. -/
def Wrapping.toToml (wrapping : Wrapping) : List (String × Value) :=
  [ ("enabled", .boolean wrapping.enabled),
    ("wrapper", .string wrapping.wrapper),
    ("tag_registry", .string wrapping.registry),
    ("clients", textsToml wrapping.clients),
    ("params_ident", .string wrapping.params) ]

/-- The settings as entries of a document, all of them written out. -/
def toToml (settings : Settings) : List (String × Value) :=
  [ ("discovery", .table settings.discovery.toToml),
    ("policy", .table settings.policy.toToml),
    ("eligibility", .table settings.eligibility.toToml),
    ("imports", .table settings.imports.toToml),
    ("wrap", .table settings.wrap.toToml) ]

/-- The document that says all settings. -/
def document (settings : Settings) : String :=
  render settings.toToml

end CachedRoutes.Settings
