import CachedRoutes.Import.Statement
import CachedRoutes.Settings.Basic

/-!
# Declaring the needed imports

A name counts as present when it occurs anywhere in the file. Missing names go into an existing
named import from their module, or else into new import lines right after the anchor import, in the
file's own style of quotes, semicolons and line ends. Without an anchor no line is added.
-/

namespace CachedRoutes.Import

/-- The needed imports whose name does not occur in the text. -/
def missing (imports : Settings.Imports) (text : List Char) : List Settings.RequiredImport :=
  imports.required.filter fun required => !Text.contains required.symbol.toList text

/-- Has the text an anchor import? -/
def hasAnchor (imports : Settings.Imports) (text : List Char) : Bool :=
  (anchor? imports.anchor.toList text).isSome

/-- The modules of the needed imports, each once, in order. -/
def modules (imports : Settings.Imports) : List String :=
  (imports.required.map (·.specifier)).eraseDups

/-- Names with a comma and a space between them. -/
def commaList (names : List (List Char)) : List Char :=
  ", ".toList.intercalate names

/-- The text with the symbols added to its first named import from the module. There is no such
text when there is no such import, or when its list is empty. -/
def extend? (specifier : List Char) (symbols : List (List Char)) (text : List Char) :
    Option (List Char) :=
  match named? specifier text with
  | none => none
  | some named =>
    let listed := nameList named.names
    if listed.isEmpty then none
    else
      some (Text.upTo text (named.names ++ named.after)
        ++ ' ' :: commaList (listed ++ symbols) ++ ' ' :: named.after)

/-- A module and the names to import from it. -/
structure Addition where
  /-- The module. -/
  specifier : String
  /-- The names, in order. -/
  symbols : List String
  deriving DecidableEq, Repr

/-- One line that imports the names of an addition. -/
def importLine (quote : Char) (terminated : Bool) (addition : Addition) : List Char :=
  "import \x7b ".toList ++ commaList (addition.symbols.map String.toList) ++ " \x7d from ".toList
    ++ quote :: addition.specifier.toList ++ quote :: (if terminated then [';'] else [])

/-- The line end that new lines get. -/
def lineEnd (text : List Char) : List Char :=
  if Text.contains ['\r', '\n'] text then ['\r', '\n'] else ['\n']

/-- The text with the additions as new lines after the anchor. -/
def insertAfter (anchor : Anchor) (additions : List Addition) (text : List Char) : List Char :=
  Text.upTo text anchor.after
    ++ additions.flatMap (fun addition =>
      lineEnd text ++ importLine anchor.quote anchor.terminated addition)
    ++ anchor.after

/-- A step on the way to complete imports, for the log. -/
inductive Step where
  /-- A named import was extended. -/
  | extended (addition : Addition)
  /-- So many lines were inserted after the anchor. -/
  | inserted (count : Nat)
  /-- Lines were needed, and there is no anchor. -/
  | noAnchor
  deriving DecidableEq, Repr

/-- What the log says about a step. -/
def Step.note : Step → String
  | extended addition =>
    let names := ", ".intercalate (addition.symbols.map fun name => "\"" ++ name ++ "\"")
    s!"Extended import from {addition.specifier} with [{names}]"
  | inserted count => s!"Inserting {count} import line(s) after anchor"
  | noAnchor => "Anchor import not found; leaving imports unchanged"

/-- A text with its imports ensured, as far as possible. -/
structure Ensured where
  /-- The text. -/
  text : List Char
  /-- The steps taken, in order. -/
  steps : List Step
  deriving DecidableEq, Repr

/-- The additions that the missing imports ask for, by module. -/
def additions (imports : Settings.Imports) (text : List Char) : List Addition :=
  let wanted := missing imports text
  ((modules imports).map fun specifier =>
    { specifier, symbols := (wanted.filter (·.specifier == specifier)).map (·.symbol) }).filter
      fun addition => !addition.symbols.isEmpty

/-- Adds to existing named imports, one addition after the other. The result has the additions for
which there is no such import left over. -/
def extendAll : List Addition → List Char → Ensured × List Addition
  | [], text => (⟨text, []⟩, [])
  | addition :: rest, text =>
    match extend? addition.specifier.toList (addition.symbols.map String.toList) text with
    | some extended =>
      let (ensured, left) := extendAll rest extended
      ({ ensured with steps := .extended addition :: ensured.steps }, left)
    | none =>
      let (ensured, left) := extendAll rest text
      (ensured, addition :: left)

/-- The text with the needed imports declared, as far as possible. -/
def ensure (imports : Settings.Imports) (text : List Char) : Ensured :=
  let (extended, left) := extendAll (additions imports text) text
  if left.isEmpty then extended
  else
    match anchor? imports.anchor.toList extended.text with
    | some anchor =>
      { text := insertAfter anchor left extended.text,
        steps := extended.steps ++ [.inserted left.length] }
    | none => { extended with steps := extended.steps ++ [.noAnchor] }

end CachedRoutes.Import
