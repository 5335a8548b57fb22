import CachedRoutes.Text.Basic
import CachedRoutes.Text.Blank
import CachedRoutes.Text.Word

/-!
# Import statements

Two forms of import are recognised at the start of a line. A named import,
`import { a, b } from 'module'` with its braces on one line, is where names are added. Any import of
the anchor module marks where new import lines go. A statement is read by its words alone, wherever
the line stands.
-/

namespace CachedRoutes.Import

/-- Single or double quote. -/
def isImportQuote (c : Char) : Bool :=
  c == '\x27' || c == '\x22'

/-- The quote in front of a module specifier and what follows the quote behind it. The two quotes
may differ. -/
def quotedModule? (specifier text : List Char) : Option (Char × List Char) :=
  match text with
  | opening :: rest =>
    if isImportQuote opening then
      match Text.after? specifier rest with
      | some (closing :: after) => if isImportQuote closing then some (opening, after) else none
      | _ => none
    else none
  | [] => none

/-- The quote and the rest of `from 'module'` at the start of the text. -/
def fromClause? (specifier text : List Char) : Option (Char × List Char) :=
  match Text.after? "from".toList text with
  | some rest => quotedModule? specifier (Text.trimStart rest)
  | none => none

/-! ## Named imports -/

/-- A named import, by the text of its brace list and what follows that text. -/
structure Named where
  /-- The text between the braces. -/
  names : List Char
  /-- The text from the closing brace on. -/
  after : List Char
  deriving DecidableEq, Repr

/-- The named import from the module that starts the given line. -/
def namedAt? (specifier line : List Char) : Option Named := do
  let rest ← Text.after? "import".toList (line.dropWhile Text.isIndent)
  match Text.trimStart rest with
  | '\x7b' :: inner =>
    let names := inner.takeWhile fun c => c != '\x7d' && c != '\n'
    match inner.drop names.length with
    | '\x7d' :: closed =>
      let _ ← fromClause? specifier (Text.trimStart closed)
      return { names, after := '\x7d' :: closed }
    | _ => none
  | _ => none

/-- The first named import from the module. -/
def named? (specifier text : List Char) : Option Named :=
  (Text.lineStarts text).findSome? (namedAt? specifier)

/-- The names of a brace list: its comma-separated items, trimmed, without empty ones. -/
def nameList (names : List Char) : List (List Char) :=
  ((Text.fields ',' names).map Text.trim).filter (· != [])

/-! ## The anchor -/

/-- The end of an anchor import. -/
structure Anchor where
  /-- The quote in front of the module specifier. -/
  quote : Char
  /-- Does a semicolon end the import? -/
  terminated : Bool
  /-- What follows the import. -/
  after : List Char
  deriving DecidableEq, Repr

/-- The end of an import after its `from` clause: spaces and tabs, and a semicolon if there is
one. -/
def Anchor.ofClause (quote : Char) (rest : List Char) : Anchor :=
  match rest.dropWhile Text.isIndent with
  | ';' :: after => { quote, terminated := true, after }
  | after => { quote, terminated := false, after }

/-- The nearest `from` clause with the module, at the start of a word and with no semicolon in
front of it; `before` is the character in front of the text. -/
def clauseAhead? (specifier : List Char) (before : Char) : List Char → Option (Char × List Char)
  | [] => none
  | c :: rest =>
    let here :=
      if Text.isBoundary (some before) (some c) then fromClause? specifier (c :: rest) else none
    match here with
    | some clause => some clause
    | none => if c = ';' then none else clauseAhead? specifier c rest

/-- The anchor import that starts the given line. It may reach over several lines. -/
def anchorAt? (specifier line : List Char) : Option Anchor :=
  match Text.after? "import".toList (line.dropWhile Text.isIndent) with
  | some (c :: rest) =>
    if Text.isBlank c then
      (clauseAhead? specifier c rest).map fun (quote, after) => Anchor.ofClause quote after
    else none
  | _ => none

/-- The first anchor import. -/
def anchor? (specifier text : List Char) : Option Anchor :=
  (Text.lineStarts text).findSome? (anchorAt? specifier)

end CachedRoutes.Import
