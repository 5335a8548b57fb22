import CachedRoutes.Toml.Moment
import CachedRoutes.Toml.Value

/-!
# Marked tables

A moment can also be written as a table: its first key is a reserved one, and the value of that key
is the moment as a text. Nothing else in such a table counts. The reserved key in any other place is
a key like all others.
-/

namespace CachedRoutes.Toml

/-- The key that marks a table as a moment. -/
def momentKey : String := "$__toml_private_datetime"

/-- The value of the reserved key, if that is the first one. -/
def marked? : List (String × Value) → Option Value
  | (key, value) :: _ => if key = momentKey then some value else none
  | [] => none

/-- The moment that a text denotes. -/
def momentOf? : Value → Option Value
  | .string text => (moment? .loose text.toList).map fun moment => .moment moment.write
  | _ => none

mutual

/-- The value with its marked tables replaced by moments, if each of them is one. -/
def Value.resolve? : Value → Option Value
  | .array items => (resolveItems? items).map .array
  | .table entries =>
    match marked? entries with
    | some value => momentOf? value
    | none => (resolveEntries? entries).map .table
  | value => some value

/-- The items with their marked tables replaced by moments. -/
def resolveItems? : List Value → Option (List Value)
  | [] => some []
  | item :: rest => do
    let item ← item.resolve?
    let rest ← resolveItems? rest
    return item :: rest

/-- The entries with their marked tables replaced by moments. -/
def resolveEntries? : List (String × Value) → Option (List (String × Value))
  | [] => some []
  | (key, value) :: rest => do
    let value ← value.resolve?
    let rest ← resolveEntries? rest
    return (key, value) :: rest

end

end CachedRoutes.Toml
