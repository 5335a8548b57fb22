import CachedRoutes.Toml.Marked
import CachedRoutes.Toml.Scalar
import CachedRoutes.Toml.Tree

/-!
# Documents of TOML

A document is a sequence of lines: headers of tables, headers of further tables of a list, and
assignments of values to keys. Values nest up to a fixed depth. A document that breaks any rule is
refused as a whole.
-/

namespace CachedRoutes.Toml

/-! ## Keys -/

/-- Characters of a key without quotes. -/
def isBareKeyChar (c : Char) : Bool :=
  c.isAlphanum || c == '_' || c == '-'

/-- One key, bare or quoted. -/
def key? (text : List Char) : Option (String × List Char) :=
  match text with
  | '\x22' :: rest => (basicText? rest).map fun (key, rest) => (String.ofList key, rest)
  | '\x27' :: rest => (literalText? rest).map fun (key, rest) => (String.ofList key, rest)
  | _ =>
    let key := text.takeWhile isBareKeyChar
    if key.isEmpty then none else some (String.ofList key, text.dropWhile isBareKeyChar)

/-- How long a path of keys and how deep a value may get. -/
def nestingLimit : Nat := 80

/-- Keys with dots between them, with blanks around each; at most `count` of them. -/
def keys? : Nat → List Char → Option (List String × List Char)
  | 0, _ => none
  | count + 1, text => do
    let (key, rest) ← key? (text.dropWhile isWhite)
    match rest.dropWhile isWhite with
    | '.' :: rest => do
      let (further, rest) ← keys? count rest
      return (key :: further, rest)
    | rest => return ([key], rest)

/-- A path of keys, split into the keys before the last and the last. -/
def keyPath? (text : List Char) : Option (List String × String × List Char) := do
  let (keys, rest) ← keys? (nestingLimit - 1) text
  let last ← keys.getLast?
  return (keys.dropLast, last, rest)

/-! ## Values -/

/-- The text without the blanks, line ends and comments at its start. -/
def skipBreaks (text : List Char) : List Char :=
  match text with
  | [] => []
  | '\r' :: '\n' :: rest => skipBreaks rest
  | '#' :: rest => skipBreaks (rest.dropWhile isPlain)
  | c :: rest => if isWhite c || c == '\n' then skipBreaks rest else c :: rest
termination_by text.length
decreasing_by
  · simp only [List.length_cons]; omega
  · have := (List.dropWhile_sublist isPlain (l := rest)).length_le
    simp only [List.length_cons]; omega
  · simp only [List.length_cons]; omega

/-- A reader of one value. -/
abbrev ValueReader := List Char → Option (Value × List Char)

/-- The items of an array, given the text after its bracket; at most `count` of them. -/
def items? (read : ValueReader) : Nat → List Char → Option (List Value × List Char)
  | 0, _ => none
  | count + 1, text =>
    match skipBreaks text with
    | ']' :: rest => some ([], rest)
    | text => do
      let (value, rest) ← read text
      match skipBreaks rest with
      | ']' :: rest => return ([value], rest)
      | ',' :: rest => do
        let (values, rest) ← items? read count rest
        return (value :: values, rest)
      | _ => none

/-- A value with the key it is assigned to. -/
structure Assignment where
  /-- The keys before the last. -/
  path : List String
  /-- The last key. -/
  key : String
  value : Value

/-- An assignment. -/
def assignment? (read : ValueReader) (text : List Char) : Option (Assignment × List Char) := do
  let (path, key, rest) ← keyPath? text
  let rest ← mark? '=' rest
  let (value, rest) ← read (rest.dropWhile isWhite)
  return ({ path, key, value }, rest)

/-- The assignments of an inline table that is not empty; at most `count` of them. -/
def members? (read : ValueReader) : Nat → List Char → Option (List Assignment × List Char)
  | 0, _ => none
  | count + 1, text => do
    let (assignment, rest) ← assignment? read text
    match rest.dropWhile isWhite with
    | '\x7d' :: rest => return ([assignment], rest)
    | ',' :: rest => do
      let (assignments, rest) ← members? read count rest
      return (assignment :: assignments, rest)
    | _ => none

/-- The table that assignments make. -/
def inlineTable? (assignments : List Assignment) : Option Value :=
  (assignments.foldlM (fun entries a => assign a.path a.key a.value entries) []).map fun entries =>
    .table (finishEntries entries)

/-- A text value. -/
def textValue (read : List Char × List Char) : Value × List Char :=
  (.string (String.ofList read.1), read.2)

/-- A value, with arrays and inline tables nested at most `depth` times in it. -/
def value? (depth : Nat) (text : List Char) : Option (Value × List Char) :=
  match text with
  | '\x22' :: '\x22' :: '\x22' :: rest => (basicLines? (dropLineEnd rest)).map textValue
  | '\x22' :: rest => (basicText? rest).map textValue
  | '\x27' :: '\x27' :: '\x27' :: rest => (literalLines? (dropLineEnd rest)).map textValue
  | '\x27' :: rest => (literalText? rest).map textValue
  | '[' :: rest =>
    match depth with
    | 0 => none
    | depth + 1 =>
      (items? (value? depth) (rest.length + 1) rest).map fun (items, rest) => (.array items, rest)
  | '\x7b' :: rest =>
    match depth with
    | 0 => none
    | depth + 1 =>
      match rest.dropWhile isWhite with
      | '\x7d' :: rest => some (.table [], rest)
      | members => do
        let (assignments, rest) ← members? (value? depth) (members.length + 1) members
        return (← inlineTable? assignments, rest)
  | _ => scalar? text

/-! ## Lines -/

/-- A line that says something. -/
inductive Statement where
  /-- The header of a table. -/
  | header (path : List String) (key : String)
  /-- The header of a further table of a list. -/
  | listHeader (path : List String) (key : String)
  /-- An assignment. -/
  | assignment (assignment : Assignment)

/-- What follows the end of a line: blanks, a comment, and a line end or the end of the text. -/
def afterLineEnd? (text : List Char) : Option (List Char) :=
  let uncommented :=
    match text.dropWhile isWhite with
    | '#' :: rest => rest.dropWhile isPlain
    | rest => rest
  match uncommented with
  | [] => some []
  | '\n' :: rest => some rest
  | '\r' :: '\n' :: rest => some rest
  | _ => none

/-- A statement at the start of the text. -/
def statement? (text : List Char) : Option (Statement × List Char) :=
  match text with
  | '[' :: '[' :: rest => do
    let (path, key, rest) ← keyPath? rest
    let rest ← mark? ']' rest
    let rest ← mark? ']' rest
    return (.listHeader path key, rest)
  | '[' :: rest => do
    let (path, key, rest) ← keyPath? rest
    let rest ← mark? ']' rest
    return (.header path key, rest)
  | _ => do
    let (assignment, rest) ← assignment? (value? (nestingLimit - 1)) text
    return (.assignment assignment, rest)

/-- The statements of a text, one to a line; at most `count` lines. -/
def statements? : Nat → List Char → Option (List Statement)
  | 0, _ => none
  | count + 1, text =>
    match text.dropWhile isWhite with
    | [] => some []
    | text =>
      match afterLineEnd? text with
      | some rest => statements? count rest
      | none => do
        let (statement, rest) ← statement? text
        let rest ← afterLineEnd? rest
        let further ← statements? count rest
        return statement :: further

/-! ## Documents -/

/-- A document under construction: its entries, and the path of the table that assignments go
to. -/
structure Draft where
  entries : Entries := []
  current : List String := []

/-- The draft after one more statement. -/
def Draft.add? (draft : Draft) : Statement → Option Draft
  | .header path key =>
    (changeAt (openTable key) path draft.entries).map fun entries =>
      { entries, current := path ++ [key] }
  | .listHeader path key =>
    (changeAt (openListed key) path draft.entries).map fun entries =>
      { entries, current := path ++ [key] }
  | .assignment a =>
    (changeAt (assign a.path a.key a.value) draft.current draft.entries).map fun entries =>
      { draft with entries }

/-- The text without a byte order mark at its start. -/
def dropByteOrderMark : List Char → List Char
  | c :: rest => if c.toNat = 0xfeff then rest else c :: rest
  | [] => []

/-- The value that a document denotes, if it is one: a table, or a moment if that is marked as
one. -/
def parse? (document : String) : Option Value := do
  let text := dropByteOrderMark document.toList
  let statements ← statements? (text.length + 1) text
  let draft ← statements.foldlM Draft.add? {}
  (Value.table (finishEntries draft.entries)).resolve?

end CachedRoutes.Toml
