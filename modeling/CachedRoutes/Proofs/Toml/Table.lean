import CachedRoutes.Toml.Value
import Mathlib.Data.List.Basic

/-!
# Tables as lists of entries

What `put` does to a list of entries, seen through `lookup`, and which keys a list of entries has.
-/

namespace CachedRoutes.Toml

variable {α : Type} {key other : String} {value old : α} {entries : List (String × α)}

/-- There is nothing in an empty table. -/
@[simp] lemma lookup_nil : lookup key ([] : List (String × α)) = none := rfl

/-- The first entry with a key is found. -/
@[simp] lemma lookup_cons_self : lookup key ((key, value) :: entries) = some value := by
  simp [lookup]

/-- An entry with another key is passed over. -/
lemma lookup_cons_of_ne (h : other ≠ key) :
    lookup key ((other, value) :: entries) = lookup key entries := by
  simp [lookup, h]

/-- What was put at a key is found there. -/
@[simp] lemma lookup_put_self : lookup key (put key value entries) = some value := by
  induction entries with
  | nil => simp [put]
  | cons entry entries ih =>
    obtain ⟨k, v⟩ := entry
    by_cases h : k = key
    · simp [put, h]
    · simp [put, h, lookup_cons_of_ne, ih]

/-- What was put at another key does not matter. -/
lemma lookup_put_of_ne (h : other ≠ key) :
    lookup key (put other value entries) = lookup key entries := by
  induction entries with
  | nil => simp [put, lookup_cons_of_ne h]
  | cons entry entries ih =>
    obtain ⟨k, v⟩ := entry
    by_cases hk : k = other
    · simp [put, hk, lookup_cons_of_ne h]
    · by_cases hkey : k = key
      · subst hkey
        simp [put, hk]
      · simp [put, hk, lookup_cons_of_ne hkey, ih]

/-- Setting a key to the value it has changes nothing. -/
lemma put_of_lookup (h : lookup key entries = some value) : put key value entries = entries := by
  induction entries with
  | nil => simp at h
  | cons entry entries ih =>
    obtain ⟨k, v⟩ := entry
    by_cases hk : k = key
    · subst hk
      obtain rfl : v = value := by simpa using h
      simp [put]
    · rw [lookup_cons_of_ne hk] at h
      simp [put, hk, ih h]

/-- Nothing is found exactly if the key does not occur. -/
lemma lookup_eq_none_iff : lookup key entries = none ↔ key ∉ entries.map (·.1) := by
  induction entries with
  | nil => simp
  | cons entry entries ih =>
    obtain ⟨k, v⟩ := entry
    by_cases hk : k = key
    · simp [hk]
    · simp [lookup_cons_of_ne hk, ih, Ne.symm hk]

end CachedRoutes.Toml
