import Mathlib.Data.List.Basic
import Mathlib.Data.List.Find
import Mathlib.Data.List.Forall2

/-!
# Lists

Facts about lists of any kind that several parts of the library share.

* **Classes.** `eq_false_of_all` and `not_mem_of_all`: what a look at all elements tells of each.
* **Runs.** `takeWhile_run` and `dropWhile_run`: where a run of elements of one class ends.
* **Ends.** `concat_eq_append_cons`: the two ways to cut a list in front of its end.
* **First members.** `eraseDups_eq_iff`: lists in which all searches agree.
-/

namespace CachedRoutes

variable {α β : Type}

/-! ## Classes -/

/-- What no element of a list is, from a look at all of them. -/
lemma eq_false_of_all {p : α → Bool} {list : List α} (h : (list.all fun a => !p a) = true) :
    ∀ a ∈ list, p a = false := by
  intro a ha
  simpa using List.all_eq_true.mp h a ha

/-- An element of a class is none of those outside of it. -/
lemma not_mem_of_all {p : α → Bool} {a : α} {others : List α} (ha : p a = true)
    (hothers : (others.all fun b => !p b) = true) : a ∉ others := by
  intro hmem
  rw [eq_false_of_all hothers a hmem] at ha
  exact Bool.noConfusion ha

/-! ## Runs -/

section Runs

variable {p : α → Bool} {run rest : List α}

/-- A run of elements of one class ends in front of the first element that is of another. -/
lemma takeWhile_run (hrun : ∀ a ∈ run, p a = true) (hrest : ∀ a ∈ rest.head?, p a = false) :
    (run ++ rest).takeWhile p = run := by
  rw [List.takeWhile_append_of_pos hrun]
  cases rest with
  | nil => simp
  | cons a rest => simp [hrest a rfl]

/-- Behind a run of elements of one class is what starts with an element of another. -/
lemma dropWhile_run (hrun : ∀ a ∈ run, p a = true) (hrest : ∀ a ∈ rest.head?, p a = false) :
    (run ++ rest).dropWhile p = rest := by
  rw [List.dropWhile_append_of_pos hrun]
  cases rest with
  | nil => rfl
  | cons a rest => simp [hrest a rfl]

/-- A run that ends in front of a seam or at it does not go on behind it. -/
lemma takeWhile_append_of_head {left right : List α} (h : ∀ a ∈ right.head?, p a = false) :
    (left ++ right).takeWhile p = left.takeWhile p := by
  induction left with
  | nil => exact takeWhile_run (by simp) h
  | cons b left ih => by_cases hb : p b = true <;> simp [hb, ih]

/-- Where a run of a class has ended, there is no element of the class. -/
lemma head?_dropWhile_ne {a : α} (ha : p a = true) (list : List α) :
    (list.dropWhile p).head? ≠ some a := by
  intro hhead
  have hnot := List.head?_dropWhile_not p list
  rw [hhead] at hnot
  simp [ha] at hnot

end Runs

/-! ## Ends -/

/-- A list ends with an element that stands in it, or with what follows that. -/
lemma concat_eq_append_cons {front before behind : List α} {last a : α}
    (h : front ++ [last] = before ++ a :: behind) :
    (behind = [] ∧ last = a ∧ front = before) ∨
      ∃ inner, behind = inner ++ [last] ∧ front = before ++ a :: inner := by
  rcases List.eq_nil_or_concat behind with rfl | ⟨inner, b, rfl⟩
  · obtain ⟨rfl, hlast⟩ := List.append_inj' h rfl
    exact .inl ⟨rfl, by simpa using hlast, rfl⟩
  · have hcut : front ++ [last] = (before ++ a :: inner) ++ [b] := by simpa using h
    obtain ⟨rfl, hlast⟩ := List.append_inj' hcut rfl
    obtain rfl : last = b := by simpa using hlast
    exact .inr ⟨inner, by simp, rfl⟩

/-! ## Lists put together -/

/-- What stands in joined lists is the separator or stands in one of them. -/
lemma mem_of_mem_intercalate {separator a : α} {lists : List (List α)}
    (h : a ∈ [separator].intercalate lists) : a = separator ∨ ∃ list ∈ lists, a ∈ list := by
  induction lists with
  | nil => cases h
  | cons list lists ih =>
    cases lists with
    | nil => exact .inr ⟨list, List.mem_cons_self, by simpa using h⟩
    | cons next lists =>
      rw [List.intercalate_cons_cons, List.append_assoc] at h
      rcases List.mem_append.mp h with hlist | hrest
      · exact .inr ⟨list, List.mem_cons_self, hlist⟩
      · rcases List.mem_cons.mp hrest with hseparator | hrest
        · exact .inl hseparator
        · obtain hseparator | ⟨other, hother, ha⟩ := ih hrest
          · exact .inl hseparator
          · exact .inr ⟨other, List.mem_cons_of_mem _ hother, ha⟩

/-- A function that may fail gives a list if it gives its elements one by one. -/
lemma mapM_eq_some_of_forall₂ {f : α → Option β} {xs : List α} {ys : List β}
    (h : List.Forall₂ (fun x y => f x = some y) xs ys) : xs.mapM f = some ys := by
  induction h with
  | nil => rfl
  | cons h _ ih => simp [List.mapM_cons, h, ih]

/-! ## First members -/

section FirstMember

variable [BEq α] [LawfulBEq α]

/-- The first element with a property is the given one exactly if it has it, and none in front of it
does. -/
lemma find?_eq_some_iff_takeWhile {list : List α} {a : α} (hmem : a ∈ list) (p : α → Bool) :
    list.find? p = some a ↔
      p a = true ∧ ∀ other ∈ list.takeWhile (· != a), p other = false := by
  induction list with
  | nil => simp at hmem
  | cons first others ih =>
    by_cases hfirst : first = a
    · subst hfirst
      cases hp : p first with
      | true => simp [hp]
      | false =>
        simp only [List.find?_cons, hp, Bool.false_eq_true, false_and, iff_false]
        intro hfind
        rw [List.find?_some hfind] at hp
        exact Bool.noConfusion hp
    · have hmem' : a ∈ others := (List.mem_cons.mp hmem).resolve_left (Ne.symm hfirst)
      have hwhile : (first :: others).takeWhile (· != a)
          = first :: others.takeWhile (· != a) := by simp [hfirst]
      rw [List.find?_cons, hwhile, List.forall_mem_cons]
      cases hp : p first with
      | true => simp [hfirst]
      | false => simpa using ih hmem'

/-- Repetitions do not change what is found first. -/
lemma find?_eraseDups (p : α → Bool) (xs : List α) : xs.eraseDups.find? p = xs.find? p := by
  induction hlength : xs.length using Nat.strong_induction_on generalizing xs with
  | _ n ih =>
    cases xs with
    | nil => rfl
    | cons x xs =>
      have hshorter : (xs.filter fun y => !y == x).length < n :=
        hlength ▸ Nat.lt_succ_of_le (List.length_filter_le _ _)
      rw [List.eraseDups_cons, List.find?_cons, List.find?_cons, ih _ hshorter _ rfl]
      cases hx : p x with
      | true => rfl
      | false =>
        rw [List.find?_filter]
        refine List.find?_congr ?_
        intro y _
        by_cases hy : y = x
        · simp [hy, hx]
        · simp [hy]

/-- Two lists have their first members of any set in common if and only if, repetitions left out, they
are the same. -/
lemma eraseDups_eq_iff (xs ys : List α) :
    xs.eraseDups = ys.eraseDups ↔
      ∀ held : List α, xs.find? (fun x => x ∈ held) = ys.find? (fun y => y ∈ held) := by
  constructor
  · intro h held
    rw [← find?_eraseDups, h, find?_eraseDups]
  · intro h
    induction hlength : xs.length using Nat.strong_induction_on generalizing xs ys with
    | _ n ih =>
      cases xs with
      | nil =>
        cases ys with
        | nil => rfl
        | cons y ys => simpa using h [y]
      | cons x xs =>
        cases ys with
        | nil => simpa using h [x]
        | cons y ys =>
          obtain rfl : x = y := by simpa using h [x, y]
          have hshorter : (xs.filter fun z => !z == x).length < n :=
            hlength ▸ Nat.lt_succ_of_le (List.length_filter_le _ _)
          rw [List.eraseDups_cons, List.eraseDups_cons, ih _ hshorter _ (ys.filter _) _ rfl]
          intro held
          -- without the first member in the set, the search goes on behind it
          have hrest (zs : List α) : (zs.filter fun z => !z == x).find? (fun z => z ∈ held)
              = (x :: zs).find? fun z => z ∈ held.filter fun other => !other == x := by
            rw [List.find?_filter, List.find?_cons_of_neg (by simp)]
            refine List.find?_congr ?_
            intro z _
            rw [Bool.eq_iff_iff]
            simp [and_comm]
          rw [hrest, hrest]
          exact h _

/-- A list without its later duplicates has none. -/
lemma nodup_eraseDups (xs : List α) : xs.eraseDups.Nodup := by
  -- each step removes the head from the tail, so the length goes down
  induction hlength : xs.length using Nat.strong_induction_on generalizing xs with
  | _ n ih =>
    cases xs with
    | nil => simp
    | cons x xs =>
      have hshorter : (xs.filter fun y => !y == x).length < n :=
        hlength ▸ Nat.lt_succ_of_le (List.length_filter_le _ _)
      rw [List.eraseDups_cons, List.nodup_cons]
      exact ⟨by simp [List.mem_eraseDups], ih _ hshorter _ rfl⟩

/-- A list without duplicates stays as it is when they are left out. -/
lemma eraseDups_of_nodup {xs : List α} (h : xs.Nodup) : xs.eraseDups = xs := by
  induction xs with
  | nil => rfl
  | cons x xs ih =>
    obtain ⟨hx, hxs⟩ := List.nodup_cons.mp h
    rw [List.eraseDups_cons, List.filter_eq_self.mpr, ih hxs]
    intro y hy
    have hne : y ≠ x := fun heq => hx (heq ▸ hy)
    simpa using hne

end FirstMember

end CachedRoutes
