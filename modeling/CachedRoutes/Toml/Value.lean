/-!
# TOML values

The values of a TOML document. A number with a fraction and a moment of time are kept as texts: no
setting is a fraction, and a moment is only ever read as text. A table is a list of entries with
distinct keys.
-/

namespace CachedRoutes.Toml

/-- A TOML value. -/
inductive Value where
  | string (text : String)
  | integer (number : Int)
  /-- A number with a fraction or an exponent, infinity or not-a-number, as written. -/
  | float (written : String)
  | boolean (value : Bool)
  /-- A date, a time or both, in normal form. -/
  | moment (written : String)
  | array (items : List Value)
  | table (entries : List (String × Value))
  deriving Repr

/-- The value at a key of a list of entries. -/
def lookup {α : Type} (key : String) : List (String × α) → Option α
  | [] => none
  | (k, value) :: rest => if k = key then some value else lookup key rest

/-- The entries with a value set: in the key's place if it is there, otherwise at the end. -/
def put {α : Type} (key : String) (value : α) : List (String × α) → List (String × α)
  | [] => [(key, value)]
  | (k, old) :: rest => if k = key then (key, value) :: rest else (k, old) :: put key value rest

/-- The entries without a key. -/
def remove {α : Type} (key : String) (entries : List (String × α)) : List (String × α) :=
  entries.filter fun entry => entry.1 != key

namespace Value

/-- The value at a path of keys. -/
def get? : List String → Value → Option Value
  | [], value => some value
  | key :: rest, table entries =>
    match lookup key entries with
    | some value => get? rest value
    | none => none
  | _ :: _, _ => none

end Value

end CachedRoutes.Toml
