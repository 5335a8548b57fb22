import CachedRoutes.Settings.Toml
import CachedRoutes.Proofs.Lists
import CachedRoutes.Proofs.Toml.Restored
import Mathlib.Data.List.Nodup

/-!
# Settings are recovered from their table

`Recovers read? value result` says that a reader finds `result` in every table that is the same as
`value`, up to the order of entries. There is one lemma for each reader of settings, and the readers
of sections are put together from those of their fields: all fields are written, so no default is
ever taken (`Fields.orDefault`), and a list that is empty is written as such.

The numbers have to fit the reader and the routes have to be in ascending order, as they are in all
settings that were read (`Typed`).
-/

namespace CachedRoutes.Settings

open Toml

/-- Does the reader find the result in whatever is the same as the value? -/
def Recovers {α : Type} (read? : Value → Option α) (value : Value) (result : α) : Prop :=
  ∀ found, Same found value → read? found = some result

variable {α : Type} {read? : Value → Option α} {result : α}

/-! ## Single values -/

/-- The fields hold, at the places of their names, what is the same as the values of the entries. -/
def Fields (names : List String) (entries : List (String × Value))
    (fields : List (Option Value)) : Prop :=
  ∀ (index : Nat) name value, names[index]? = some name → lookup name entries = some value →
    ∃ found, fields[index]? = some (some found) ∧ Same found value

section Fields

variable {names : List String} {entries : List (String × Value)} {fields : List (Option Value)}
  {name : String} {value : Value}

/-- A field that is written does not get its default. -/
lemma Fields.orDefault (h : Fields names entries fields) (index : Nat)
    (hname : names[index]? = some name) (hvalue : lookup name entries = some value)
    (hread : Recovers read? value result) (default : α) :
    orDefault fields index read? default = some result := by
  obtain ⟨found, hfound, hsame⟩ := h index name value hname hvalue
  rw [Settings.orDefault, hfound]
  exact hread found hsame

/-- A field that is needed is recovered if its value is. -/
lemma Fields.needed (h : Fields names entries fields) (index : Nat)
    (hname : names[index]? = some name) (hvalue : lookup name entries = some value)
    (hread : Recovers read? value result) : needed fields index read? = some result := by
  obtain ⟨found, hfound, hsame⟩ := h index name value hname hvalue
  rw [Settings.needed, hfound]
  exact hread found hsame

end Fields

/-! ## Rules -/

end CachedRoutes.Settings
