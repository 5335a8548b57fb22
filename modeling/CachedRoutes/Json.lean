/-!
# JSON values for reports

The values that reports are made of, and their printed form: two spaces of indent for each level,
one member on a line, and empty lists and objects on one line.
-/

namespace CachedRoutes

/-- A JSON value of a report. Numbers are counts. -/
inductive Json where
  | bool (value : Bool)
  | number (value : Nat)
  | string (value : String)
  | array (items : List Json)
  | object (members : List (String × Json))

namespace Json

/-- A hexadecimal digit. -/
def hexDigit (n : Nat) : Char :=
  if n < 10 then Char.ofNat (48 + n) else Char.ofNat (87 + n)

/-- A character inside a quoted string. Control characters below U+0020 are escaped, and so are the
double quote and the backslash. -/
def escapeChar (c : Char) : String :=
  if c == '\x22' then "\\\""
  else if c == '\\' then "\\\\"
  else if c == '\n' then "\\n"
  else if c == '\r' then "\\r"
  else if c == '\t' then "\\t"
  else if c == '\x08' then "\\b"
  else if c == '\x0c' then "\\f"
  else if c.toNat < 0x20 then
    "\\u00" ++ String.ofList [hexDigit (c.toNat / 16), hexDigit (c.toNat % 16)]
  else String.singleton c

/-- A quoted string. -/
def quote (text : String) : String :=
  "\"" ++ String.join (text.toList.map escapeChar) ++ "\""

/-- The start of a line at the given level. -/
def margin (level : Nat) : String :=
  "\n" ++ "".pushn ' ' (2 * level)

mutual

/-- The printed form of a value whose first line is at the given level. -/
def render (level : Nat) : Json → String
  | bool value => if value then "true" else "false"
  | number value => toString value
  | string value => quote value
  | array [] => "[]"
  | array (first :: rest) =>
    "[" ++ margin (level + 1) ++ render (level + 1) first ++ renderItems (level + 1) rest
      ++ margin level ++ "]"
  | object [] => "\x7b\x7d"
  | object ((key, first) :: rest) =>
    "\x7b" ++ margin (level + 1) ++ quote key ++ ": " ++ render (level + 1) first
      ++ renderMembers (level + 1) rest ++ margin level ++ "\x7d"

/-- The further items of a list. -/
def renderItems (level : Nat) : List Json → String
  | [] => ""
  | item :: rest => "," ++ margin level ++ render level item ++ renderItems level rest

/-- The further members of an object. -/
def renderMembers (level : Nat) : List (String × Json) → String
  | [] => ""
  | (key, value) :: rest =>
    "," ++ margin level ++ quote key ++ ": " ++ render level value ++ renderMembers level rest

end

/-- The printed form of a value. -/
def pretty (json : Json) : String :=
  json.render 0

end Json

end CachedRoutes
