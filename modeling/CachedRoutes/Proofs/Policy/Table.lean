import CachedRoutes.Policy.Catalog
import CachedRoutes.Proofs.Bytes.Order
import Mathlib.Data.List.Induction
import Mathlib.Data.List.Nodup

/-!
# Which policy the exact table gives a route

Settings list exact policies by text, in ascending order, and several texts may denote one route. The
table that is built from them has every route once. This module says which of the texts counts, and
when tables are accepted.

* **Building.** `find?_exactTable`: the last entry for a route is the one that is found.
  `mem_exactTable_iff`: nothing else is in the table.
* **The greatest text** (`Greatest`): since the texts are in ascending order, the last entry for a
  route is the one whose text has the greatest bytes (`find?_exactTable_eq_some_iff`).
* **Checking.** `flaw?_eq_none_iff`: tables are accepted exactly if they are sound (`Sound`).
-/

namespace CachedRoutes.Catalog

/-! ## Building the table -/

section Building

variable {route other : Route} {policy : Policy} {table : List (Route × Policy)}

/-- What was put for a route is found for it. -/
lemma find?_put_self (route : Route) (policy : Policy) (table : List (Route × Policy)) :
    (put route policy table).find? (·.1 == route) = some (route, policy) := by
  induction table with
  | nil => simp [put]
  | cons entry rest ih =>
    by_cases hentry : entry.1 = route
    · simp [put, hentry]
    · simp [put, hentry, ih]

/-- What was put for another route does not matter. -/
lemma find?_put_of_ne (h : route ≠ other) (policy : Policy) (table : List (Route × Policy)) :
    (put route policy table).find? (·.1 == other) = table.find? (·.1 == other) := by
  induction table with
  | nil => simp [put, h]
  | cons entry rest ih =>
    by_cases hentry : entry.1 = route
    · simp [put, hentry, h]
    · simp [put, hentry, List.find?_cons, ih]

/-- Setting a policy adds its route, if it is not there, and no other. -/
lemma mem_keys_put :
    other ∈ (put route policy table).map (·.1) ↔ other = route ∨ other ∈ table.map (·.1) := by
  induction table with
  | nil => simp [put]
  | cons entry rest ih =>
    by_cases hentry : entry.1 = route
    · simp [put, hentry]
    · simp only [put, if_neg hentry, List.map_cons, List.mem_cons, ih]
      exact or_left_comm

/-- No route has two entries after one is put. -/
lemma nodup_put (h : (table.map (·.1)).Nodup) : ((put route policy table).map (·.1)).Nodup := by
  induction table with
  | nil => simp [put]
  | cons entry rest ih =>
    rw [List.map_cons, List.nodup_cons] at h
    by_cases hentry : entry.1 = route
    · rw [put, if_pos hentry, List.map_cons, List.nodup_cons]
      exact ⟨hentry ▸ h.1, h.2⟩
    · rw [put, if_neg hentry, List.map_cons, List.nodup_cons, mem_keys_put, not_or]
      exact ⟨⟨hentry, h.1⟩, ih h.2⟩

end Building

/-- The table is filled from the first entry to the last. -/
lemma exactTable_concat (routes : List (String × Policy)) (entry : String × Policy) :
    exactTable (routes ++ [entry]) = put (Route.ofText entry.1) entry.2 (exactTable routes) := by
  rw [exactTable, List.foldl_append]
  rfl

/-- Every route is in the table once. -/
lemma nodup_exactTable (routes : List (String × Policy)) :
    ((exactTable routes).map (·.1)).Nodup := by
  induction routes using List.reverseRecOn with
  | nil => exact List.nodup_nil
  | append_singleton routes entry ih =>
    rw [exactTable_concat]
    exact nodup_put ih

/-- Of several entries for one route the last is found. -/
lemma find?_exactTable (routes : List (String × Policy)) (route : Route) :
    ((exactTable routes).find? (·.1 == route)).map (·.2)
      = (routes.reverse.find? fun entry => Route.ofText entry.1 == route).map (·.2) := by
  induction routes using List.reverseRecOn with
  | nil => rfl
  | append_singleton routes entry ih =>
    rw [exactTable_concat, List.reverse_append, List.reverse_singleton, List.singleton_append]
    by_cases hentry : Route.ofText entry.1 = route
    · rw [← hentry, find?_put_self, List.find?_cons_of_pos (by simp)]
      rfl
    · rw [find?_put_of_ne hentry, ih, List.find?_cons_of_neg (by simpa using hentry)]

/-- What is in the table is what is found in it. -/
lemma mem_exactTable_iff {routes : List (String × Policy)} {route : Route} {policy : Policy} :
    (route, policy) ∈ exactTable routes
      ↔ ((exactTable routes).find? (·.1 == route)).map (·.2) = some policy := by
  constructor
  · intro hmem
    obtain ⟨found, hfound⟩ : ∃ found, (exactTable routes).find? (·.1 == route) = some found := by
      rw [← Option.isSome_iff_exists, List.find?_isSome]
      exact ⟨_, hmem, by simp⟩
    -- two entries for one route are one entry
    have hsame : found = (route, policy) := by
      refine List.inj_on_of_nodup_map (nodup_exactTable routes) (List.mem_of_find?_eq_some hfound)
        hmem ?_
      simpa using List.find?_some hfound
    rw [hfound, hsame]
    rfl
  · intro hfound
    obtain ⟨⟨found, listed⟩, hfind, rfl⟩ := Option.map_eq_some_iff.mp hfound
    obtain rfl : found = route := by simpa using List.find?_some hfind
    exact List.mem_of_find?_eq_some hfind

/-! ## The greatest text -/

/-- Of the entries whose texts denote the route, it is the one whose text has the greatest bytes. -/
structure Greatest (routes : List (String × Policy)) (route : Route) (entry : String × Policy) :
    Prop where
  mem : entry ∈ routes
  denotes : Route.ofText entry.1 = route
  greatest : ∀ other ∈ routes, Route.ofText other.1 = route →
    Bytes.encode other.1.toList ≤ Bytes.encode entry.1.toList

section Ascending

variable {routes : List (String × Policy)} {route : Route} {policy : Policy}

/-- In ascending order, the last entry for a route is the greatest. -/
lemma greatest_of_find? (hascending : (routes.map (·.1)).Pairwise (· < ·))
    {entry : String × Policy}
    (h : routes.reverse.find? (fun entry => Route.ofText entry.1 == route) = some entry) :
    Greatest routes route entry := by
  obtain ⟨hdenotes, later, earlier, hsplit, hlater⟩ := List.find?_eq_some_iff_append.mp h
  have hroutes : routes = earlier.reverse ++ entry :: later.reverse := by
    rw [← List.reverse_reverse routes, hsplit]
    simp
  refine ⟨by simp [hroutes], by simpa using hdenotes, fun other hother hroute => ?_⟩
  rw [hroutes, List.map_append, List.map_cons, List.pairwise_append] at hascending
  rw [hroutes, List.mem_append, List.mem_cons] at hother
  rcases hother with hearlier | rfl | hlate
  · -- what stands in front is smaller
    have hlt := hascending.2.2 _ (List.mem_map_of_mem hearlier) _ List.mem_cons_self
    exact List.le_of_lt (Bytes.lt_iff_encode_lt.mp hlt)
  · exact List.le_refl _
  · -- what stands behind denotes other routes
    have hne := hlater other (List.mem_reverse.mp hlate)
    simp [hroute] at hne

/-- There is one greatest entry. -/
lemma Greatest.unique (hascending : (routes.map (·.1)).Pairwise (· < ·))
    {entry other : String × Policy} (h : Greatest routes route entry)
    (hother : Greatest routes route other) : entry = other := by
  refine List.inj_on_of_nodup_map hascending.nodup h.mem hother.mem ?_
  -- neither of the two texts is smaller
  have hle := h.greatest other hother.mem hother.denotes
  have hge := hother.greatest entry h.mem h.denotes
  refine String.le_antisymm ?_ ?_
  · exact String.not_lt.mp fun hlt => hge (Bytes.lt_iff_encode_lt.mp hlt)
  · exact String.not_lt.mp fun hlt => hle (Bytes.lt_iff_encode_lt.mp hlt)

/-- **The policy of a listed route** is that of the greatest text that denotes it. -/
lemma find?_exactTable_eq_some_iff (hascending : (routes.map (·.1)).Pairwise (· < ·)) :
    ((exactTable routes).find? (·.1 == route)).map (·.2) = some policy
      ↔ ∃ key, Greatest routes route (key, policy) := by
  rw [find?_exactTable]
  constructor
  · intro h
    obtain ⟨⟨key, listed⟩, hfound, rfl⟩ := Option.map_eq_some_iff.mp h
    exact ⟨key, greatest_of_find? hascending hfound⟩
  · rintro ⟨key, hgreatest⟩
    obtain ⟨found, hfound⟩ : ∃ found,
        routes.reverse.find? (fun entry => Route.ofText entry.1 == route) = some found := by
      rw [← Option.isSome_iff_exists, List.find?_isSome]
      exact ⟨_, List.mem_reverse.mpr hgreatest.mem, by simp [hgreatest.denotes]⟩
    rw [hfound, ← hgreatest.unique hascending (greatest_of_find? hascending hfound)]
    rfl

end Ascending

/-- A route is not in the table exactly if no text denotes it. -/
lemma find?_exactTable_eq_none_iff {routes : List (String × Policy)} {route : Route} :
    ((exactTable routes).find? (·.1 == route)).map (·.2) = none
      ↔ ∀ entry ∈ routes, Route.ofText entry.1 ≠ route := by
  rw [find?_exactTable, Option.map_eq_none_iff, List.find?_eq_none]
  simp

/-! ## Checking -/

/-- Tables in which every duration is positive, no keyword is empty, and no key of a listed route is
blank. Of the entries of a route only the greatest is looked at. -/
structure Sound (policies : Settings.Policies) : Prop where
  default_pos : 0 < policies.defaultRevalidate
  duration_pos : ∀ rule ∈ policies.durations, 0 < rule.revalidate
  duration_keyword : ∀ rule ∈ policies.durations, rule.keyword ≠ ""
  tag_keyword : ∀ rule ∈ policies.tags, rule.keyword ≠ ""
  listed_pos : ∀ route key policy, Greatest policies.routes route (key, policy) →
    0 < policy.revalidate
  listed_key : ∀ route key policy, Greatest policies.routes route (key, policy) →
    ∃ c ∈ policy.keyBase.toList, Text.isBlank c = false

/-- An entry is without flaw if it lasts and its key base is not blank. -/
lemma entryFlaw?_eq_none_iff {entry : Route × Policy} :
    entryFlaw? entry = none
      ↔ 0 < entry.2.revalidate ∧ ∃ c ∈ entry.2.keyBase.toList, Text.isBlank c = false := by
  have hblank : Text.allBlank entry.2.keyBase.toList = true
      ↔ ¬ ∃ c ∈ entry.2.keyBase.toList, Text.isBlank c = false := by
    simp [Text.allBlank]
  unfold entryFlaw?
  rw [Nat.pos_iff_ne_zero]
  by_cases hzero : entry.2.revalidate = 0
  · simp [hzero]
  · by_cases hkey : Text.allBlank entry.2.keyBase.toList = true
    · simp [hzero, hkey, hblank.mp hkey]
    · simp [hzero, hkey, not_not.mp (mt hblank.mpr hkey)]

/-- The checks, one by one. -/
lemma flaw?_eq_none_iff_forall {policies : Settings.Policies} :
    flaw? policies = none ↔
      0 < policies.defaultRevalidate ∧ (∀ rule ∈ policies.durations, 0 < rule.revalidate) ∧
        (∀ rule ∈ policies.durations, rule.keyword ≠ "") ∧
        (∀ rule ∈ policies.tags, rule.keyword ≠ "") ∧
        ∀ entry ∈ exactTable policies.routes, entryFlaw? entry = none := by
  have hseconds : policies.durations.find? (·.revalidate == 0) = none
      ↔ ∀ rule ∈ policies.durations, 0 < rule.revalidate := by
    simp [List.find?_eq_none, Nat.pos_iff_ne_zero]
  have hkeywords : policies.durations.find? (·.keyword.isEmpty) = none
      ↔ ∀ rule ∈ policies.durations, rule.keyword ≠ "" := by
    simp [List.find?_eq_none]
  have htags : policies.tags.any (·.keyword.isEmpty) = false
      ↔ ∀ rule ∈ policies.tags, rule.keyword ≠ "" := by
    simp
  rw [Nat.pos_iff_ne_zero, ← hseconds, ← hkeywords, ← htags, ← List.findSome?_eq_none_iff]
  unfold flaw?
  by_cases hdefault : policies.defaultRevalidate = 0
  · simp [hdefault]
  rw [if_neg hdefault]
  cases policies.durations.find? (·.revalidate == 0) with
  | some rule => simp
  | none =>
    cases policies.durations.find? (·.keyword.isEmpty) with
    | some rule => simp
    | none =>
      cases policies.tags.any (·.keyword.isEmpty) with
      | true => simp
      | false => simp [hdefault]

/-- **Tables are accepted exactly if they are sound.** -/
lemma flaw?_eq_none_iff {policies : Settings.Policies}
    (hascending : (policies.routes.map (·.1)).Pairwise (· < ·)) :
    flaw? policies = none ↔ Sound policies := by
  have hlisted (route : Route) (policy : Policy) :
      (route, policy) ∈ exactTable policies.routes
        ↔ ∃ key, Greatest policies.routes route (key, policy) :=
    mem_exactTable_iff.trans (find?_exactTable_eq_some_iff hascending)
  rw [flaw?_eq_none_iff_forall]
  constructor
  · rintro ⟨hdefault, hseconds, hkeywords, htags, hentries⟩
    have hentry {route key policy} (h : Greatest policies.routes route (key, policy)) :=
      entryFlaw?_eq_none_iff.mp (hentries _ ((hlisted route policy).mpr ⟨key, h⟩))
    exact ⟨hdefault, hseconds, hkeywords, htags, fun _ _ _ h => (hentry h).1,
      fun _ _ _ h => (hentry h).2⟩
  · intro h
    refine ⟨h.default_pos, h.duration_pos, h.duration_keyword, h.tag_keyword, ?_⟩
    rintro ⟨route, policy⟩ hmem
    obtain ⟨key, hgreatest⟩ := (hlisted route policy).mp hmem
    exact entryFlaw?_eq_none_iff.mpr
      ⟨h.listed_pos route key policy hgreatest, h.listed_key route key policy hgreatest⟩

end CachedRoutes.Catalog
