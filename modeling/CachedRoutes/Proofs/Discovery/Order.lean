import CachedRoutes.Discovery
import Mathlib.Data.List.Lex
import Mathlib.Data.Prod.Lex
import Mathlib.Data.String.Basic

/-!
# The order of route files

Components of paths are in a linear order, by kind and then by text, and so are lists of components.
Route files are compared by the text of the route and then by the components of the path
(`sortKey`), which is what the comparison of the search decides (`le_iff`). So files that differ in
one of the two are sorted strictly (`pairwise_mergeSort_lt`).
-/

namespace CachedRoutes

namespace Path

namespace Component

/-- What components are compared by: the kind, and then the text. -/
def key (component : Component) : Nat ×ₗ String := toLex (component.rank, component.text)

/-- Components with the same key are the same. -/
lemma key_injective : Function.Injective key := by
  intro a b h
  have hkey : a.rank = b.rank ∧ a.text = b.text := Prod.mk.inj (toLex.injective h)
  cases a <;> cases b <;> simp_all [rank, text]

instance : LinearOrder Component := LinearOrder.lift' key key_injective

/-- The test for smaller components is the order of their keys. -/
lemma lt_iff (a b : Component) : a.lt b = true ↔ a < b := by
  change _ ↔ key a < key b
  unfold key lt
  rw [Prod.Lex.toLex_lt_toLex, Bool.or_eq_true, Bool.and_eq_true, decide_eq_true_eq, beq_iff_eq,
    decide_eq_true_eq]

end Component

/-- The test for smaller lists of components is their order. -/
lemma ltComponents_iff (as bs : List Component) : ltComponents as bs = true ↔ as < bs := by
  fun_induction ltComponents as bs with
  | case1 => simp
  | case2 => simp
  | case3 => simp
  | case4 a as bs ih => rw [ih, List.cons_lt_cons_iff]; simp
  | case5 a as b bs hne => rw [Component.lt_iff, List.cons_lt_cons_iff]; simp [hne]

end Path

namespace RouteFile

/-- What route files are compared by: the route, and then the path. -/
def sortKey (file : RouteFile) : String ×ₗ List Path.Component :=
  toLex (file.route.text, file.path.components)

/-- The test that sorts files is the order of their sort keys. -/
lemma le_iff (a b : RouteFile) : a.le b = true ↔ a.sortKey ≤ b.sortKey := by
  unfold le sortKey
  rw [Prod.Lex.toLex_le_toLex]
  split
  · next hroute =>
    rw [Bool.not_eq_true', ← Bool.not_eq_true, Path.ltComponents_iff, not_lt]
    simp [hroute]
  · next hroute => simp [hroute]

/-- Files that differ in their routes or paths are sorted strictly. -/
lemma pairwise_mergeSort_lt {files : List RouteFile} (h : (files.map sortKey).Nodup) :
    (files.mergeSort le).Pairwise fun a b => a.sortKey < b.sortKey := by
  have hsorted : (files.mergeSort le).Pairwise fun a b => a.le b = true := by
    refine List.pairwise_mergeSort ?_ ?_ files
    · intro a b c hab hbc
      rw [le_iff] at hab hbc ⊢
      exact le_trans hab hbc
    · intro a b
      rw [Bool.or_eq_true, le_iff, le_iff]
      exact le_total _ _
  have hdistinct : (files.mergeSort le).Pairwise fun a b => a.sortKey ≠ b.sortKey := by
    rw [← List.pairwise_map]
    exact ((List.mergeSort_perm files le).map sortKey).nodup_iff.mpr h
  refine hsorted.imp₂ ?_ hdistinct
  intro a b hle hne
  exact lt_of_le_of_ne ((le_iff a b).mp hle) hne

end RouteFile

end CachedRoutes
