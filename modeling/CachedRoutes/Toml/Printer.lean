import CachedRoutes.Toml.Document

/-!
# Printing documents of TOML

A document is printed table by table: first the entries of the table itself, then the tables inside
of it, each with its header. A table that has only tables inside needs no header. Texts are quoted
in the plainest way that can hold them.
-/

namespace CachedRoutes.Toml

/-! ## Texts -/

/-- What a text contains, as far as it decides how the text is quoted. -/
structure Traits where
  /-- The longest run of single quotes. -/
  singleQuotes : Nat
  /-- The longest run of double quotes. -/
  doubleQuotes : Nat
  /-- A backslash. -/
  backslash : Bool
  /-- A line feed. -/
  lineFeed : Bool
  /-- A control character other than tab and line feed. -/
  control : Bool
  deriving DecidableEq, Repr

/-- The longest run of a character in a text that follows a run of `current`. -/
def longestRun (c : Char) (current : Nat) : List Char → Nat
  | [] => current
  | d :: rest =>
    if d = c then longestRun c (current + 1) rest else max current (longestRun c 0 rest)

/-- A control character. -/
def isControl (c : Char) : Bool :=
  c.toNat < 0x20 || c.toNat == 0x7f

/-- The traits of a text. -/
def traits (text : List Char) : Traits where
  singleQuotes := longestRun '\x27' 0 text
  doubleQuotes := longestRun '\x22' 0 text
  backslash := text.contains '\\'
  lineFeed := text.contains '\n'
  control := text.any fun c => isControl c && c != '\t' && c != '\n'

/-- How a text is quoted. -/
inductive Style where
  | basic
  | literal
  | basicLines
  | literalLines
  deriving DecidableEq, Repr

/-- The plainest style that can hold a text: without escapes if possible, and on one line if
possible. -/
def style (t : Traits) : Style :=
  if !t.control && !t.backslash && t.doubleQuotes == 0 && !t.lineFeed then .basic
  else if !t.control && t.singleQuotes == 0 && !t.lineFeed then .literal
  else if !t.control && !t.backslash && t.doubleQuotes ≤ 2 then .basicLines
  else if !t.control && t.singleQuotes ≤ 2 then .literalLines
  else if t.lineFeed then .basicLines
  else .basic

/-- A capital hexadecimal digit. -/
def upperHexDigit (n : Nat) : Char :=
  if n < 10 then Char.ofNat (48 + n) else Char.ofNat (55 + n)

/-- A character other than the double quote in a basic text. -/
def escapeChar (keepLineFeed : Bool) (c : Char) : List Char :=
  if c = '\x08' then ['\\', 'b']
  else if c = '\t' then ['\\', 't']
  else if c = '\n' then if keepLineFeed then ['\n'] else ['\\', 'n']
  else if c = '\x0c' then ['\\', 'f']
  else if c = '\r' then ['\\', 'r']
  else if c = '\\' then ['\\', '\\']
  else if isControl c then
    ['\\', 'u', '0', '0', upperHexDigit (c.toNat / 16), upperHexDigit (c.toNat % 16)]
  else [c]

/-- The content of a basic text. After `allowed` double quotes in a row the next one is escaped;
`run` counts those just written. -/
def escapeText (keepLineFeed : Bool) (allowed run : Nat) : List Char → List Char
  | [] => []
  | c :: rest =>
    if c = '\x22' then
      if run < allowed then '\x22' :: escapeText keepLineFeed allowed (run + 1) rest
      else '\\' :: '\x22' :: escapeText keepLineFeed allowed 0 rest
    else escapeChar keepLineFeed c ++ escapeText keepLineFeed allowed 0 rest

/-- A text in the given style. A text of several lines starts on a line of its own. -/
def writeStyled (style : Style) (text : List Char) : List Char :=
  let start := if text.contains '\n' then ['\n'] else []
  match style with
  | .basic => '\x22' :: escapeText false 0 0 text ++ ['\x22']
  | .literal => '\x27' :: text ++ ['\x27']
  | .basicLines =>
    ['\x22', '\x22', '\x22'] ++ start ++ escapeText true 2 0 text ++ ['\x22', '\x22', '\x22']
  | .literalLines => ['\x27', '\x27', '\x27'] ++ start ++ text ++ ['\x27', '\x27', '\x27']

/-- A text value. -/
def writeText (text : List Char) : List Char :=
  writeStyled (style (traits text)) text

/-- A key: bare if it can be, otherwise quoted on one line. -/
def writeKey (key : List Char) : List Char :=
  let t := traits key
  if !key.isEmpty && key.all isBareKeyChar then key
  else if !t.control && !t.lineFeed && !t.backslash && t.doubleQuotes == 0 then
    writeStyled .basic key
  else if !t.control && !t.lineFeed && t.singleQuotes == 0 then writeStyled .literal key
  else writeStyled .basic key

/-- A path of keys. -/
def writePath (path : List String) : List Char :=
  ['.'].intercalate (path.map fun key => writeKey key.toList)

/-! ## Values -/

mutual

/-- A value after an equals sign. An array of two or more items has a line for each. -/
def writeValue : Value → List Char
  | .string text => writeText text.toList
  | .integer n => (toString n).toList
  | .float written => written.toList
  | .boolean b => (if b then "true" else "false").toList
  | .moment written => written.toList
  | .array [] => "[]".toList
  | .array [item] => '[' :: writeValue item ++ [']']
  | .array (first :: second :: rest) =>
    '[' :: writeItem first ++ writeItem second ++ writeItems rest ++ "\n]".toList
  | .table [] => "\x7b\x7d".toList
  | .table ((key, value) :: rest) =>
    "\x7b ".toList ++ writeKey key.toList ++ " = ".toList ++ writeValue value ++ writeMembers rest
      ++ " \x7d".toList

/-- An item of an array with a line for each. -/
def writeItem : Value → List Char
  | item => "\n    ".toList ++ writeValue item ++ [',']

/-- Further items of an array with a line for each. -/
def writeItems : List Value → List Char
  | [] => []
  | item :: rest => "\n    ".toList ++ writeValue item ++ ',' :: writeItems rest

/-- Further members of an inline table. -/
def writeMembers : List (String × Value) → List Char
  | [] => []
  | (key, value) :: rest =>
    ", ".toList ++ writeKey key.toList ++ " = ".toList ++ writeValue value ++ writeMembers rest

end

/-! ## Documents -/

/-- Is the value a table? -/
def Value.isTable : Value → Bool
  | .table _ => true
  | _ => false

/-- Is the value printed with headers: a table, or a list of tables that is not empty? -/
def Value.hasHeader : Value → Bool
  | .table _ => true
  | .array items => !items.isEmpty && items.all isTable
  | _ => false

/-- The lines of a table's own entries. -/
def writeEntries (entries : List (String × Value)) : List Char :=
  (entries.filter fun entry => !entry.2.hasHeader).flatMap fun entry =>
    writeKey entry.1.toList ++ " = ".toList ++ writeValue entry.2 ++ ['\n']

mutual

/-- The blocks of a value that is printed with headers: for each table its header and its own
entries, then the blocks of the tables inside of it. -/
def blocks (path : List String) : Value → List (List Char)
  | .table entries =>
    let own := writeEntries entries
    (if own.isEmpty && !entries.isEmpty then []
      else [['['] ++ writePath path ++ "]\n".toList ++ own]) ++ blocksBelow path entries
  | .array items => if items.all Value.isTable then listBlocks path items else []
  | _ => []

/-- The blocks of the tables inside of a table. -/
def blocksBelow (path : List String) : List (String × Value) → List (List Char)
  | [] => []
  | (key, value) :: rest => blocks (path ++ [key]) value ++ blocksBelow path rest

/-- The blocks of a list of tables. -/
def listBlocks (path : List String) : List Value → List (List Char)
  | [] => []
  | .table entries :: rest =>
    ("[[".toList ++ writePath path ++ "]]\n".toList ++ writeEntries entries)
      :: blocksBelow path entries ++ listBlocks path rest
  | _ :: rest => listBlocks path rest

end

/-- The document with the given entries. A blank line stands between blocks. -/
def render (entries : List (String × Value)) : String :=
  let own := writeEntries entries
  let all := (if own.isEmpty then [] else [own]) ++ blocksBelow [] entries
  String.ofList (['\n'].intercalate all)

end CachedRoutes.Toml
