import CachedRoutes.Proofs.Policy.Table
import CachedRoutes.Proofs.Route.Segment

/-!
# The policy of every route

A catalog answers for every route, listed or not. Here its answer is compared with what the settings
say, tier by tier.

* **Rules** (`Picks`): the first rule whose keyword stands in the route, or the default.
* **Keys** (`IsKeyBase`): the words below the last `api` directory with dashes between them, or `api`.
* **Assignment** (`Assigned`): the exact table, the defaults or the keywords, as the strategy says.
  `resolve_eq_iff_assigned`: a catalog gives a route exactly the policy that it is assigned.
* **Soundness.** `ofSettings_sound_iff`: the accepted settings are the sound ones, and then all
  policies have a positive duration and a key base that is not empty.
-/

namespace CachedRoutes.Catalog

/-! ## Rules -/

section Rules

variable {α β : Type}

/-- The value of the first rule whose keyword stands in the text, or the default if there is none. -/
inductive Picks (keyword : α → String) (value : α → β) (text : String) (rules : List α)
    (default : β) : β → Prop where
  | first {before after : List α} {rule : α} (hrules : rules = before ++ rule :: after)
      (hrule : (keyword rule).toList <:+: text.toList)
      (hbefore : ∀ other ∈ before, ¬ (keyword other).toList <:+: text.toList) :
      Picks keyword value text rules default (value rule)
  | default (hnone : ∀ rule ∈ rules, ¬ (keyword rule).toList <:+: text.toList) :
      Picks keyword value text rules default default

variable {keyword : α → String} {value : α → β} {route : Route} {rules : List α} {default : β}

/-- The first rule whose keyword the route contains decides, or else the default. -/
lemma picks_find? (keyword : α → String) (value : α → β) (route : Route) (rules : List α)
    (default : β) :
    Picks keyword value route.text rules default
      (((rules.find? fun rule => route.contains (keyword rule)).map value).getD default) := by
  cases hfind : rules.find? fun rule => route.contains (keyword rule) with
  | none =>
    refine .default fun rule hmem hinfix => ?_
    exact List.find?_eq_none.mp hfind rule hmem (Text.contains_iff.mpr hinfix)
  | some rule =>
    obtain ⟨hrule, before, after, hrules, hbefore⟩ := List.find?_eq_some_iff_append.mp hfind
    refine .first hrules (Text.contains_iff.mp hrule) fun other hmem hinfix => ?_
    have hnot := hbefore other hmem
    rw [Route.contains, Text.contains_iff.mpr hinfix] at hnot
    exact Bool.noConfusion hnot

/-- A list of rules gives one value. -/
lemma Picks.eq {v : β} (h : Picks keyword value route.text rules default v) :
    ((rules.find? fun rule => route.contains (keyword rule)).map value).getD default = v := by
  cases h with
  | first hrules hrule hbefore =>
    rename_i before after rule
    have hfind : rules.find? (fun rule => route.contains (keyword rule)) = some rule := by
      rw [List.find?_eq_some_iff_append]
      refine ⟨Text.contains_iff.mpr hrule, before, after, hrules, fun other hmem => ?_⟩
      rw [Bool.not_eq_true', ← Bool.not_eq_true]
      exact fun hcontains => hbefore other hmem (Text.contains_iff.mp hcontains)
    rw [hfind]
    rfl
  | default hnone =>
    have hfind : rules.find? (fun rule => route.contains (keyword rule)) = none := by
      rw [List.find?_eq_none]
      exact fun rule hmem hcontains => hnone rule hmem (Text.contains_iff.mp hcontains)
    rw [hfind]
    rfl

end Rules

/-- The tag of a route comes from the first rule that applies, or else from the default. -/
lemma tagOf_eq (catalog : Catalog) (route : Route) :
    catalog.tagOf route = ((catalog.tags.find? fun rule => route.contains rule.keyword).map
      (·.tag)).getD catalog.defaultTag := by
  unfold tagOf
  cases catalog.tags.find? fun rule => route.contains rule.keyword <;> rfl

/-- The duration of a route comes from the first rule that applies, or else from the default. -/
lemma durationOf_eq (catalog : Catalog) (route : Route) :
    catalog.durationOf route = ((catalog.durations.find? fun rule => route.contains rule.keyword).map
      (·.revalidate)).getD catalog.defaultRevalidate := by
  unfold durationOf
  cases catalog.durations.find? fun rule => route.contains rule.keyword <;> rfl

/-! ## Keys -/

/-- The base of a route's keys: its words below the last `api` directory, with dashes between them, or
`api` when there are none. -/
def IsKeyBase (route : Route) (base : String) : Prop :=
  ∃ below, Route.IsBelow route.directories below ∧
    let words := below.filter fun segment => Route.IsWord segment
    base.toList = if words = [] then ['a', 'p', 'i'] else ['-'].intercalate words

/-- The key base is made of the words of the route, with dashes between them. -/
lemma toList_keyBaseOf (route : Route) :
    (keyBaseOf route).toList
      = if route.keyWords = [] then ['a', 'p', 'i'] else ['-'].intercalate route.keyWords := by
  unfold keyBaseOf
  cases route.keyWords with
  | nil => rfl
  | cons word words => exact String.toList_ofList

/-- The computed key base is one, by its description. -/
lemma isKeyBase_keyBaseOf (route : Route) : IsKeyBase route (keyBaseOf route) := by
  refine ⟨route.apiSegments, Route.isBelow_apiSegments route, ?_⟩
  rw [toList_keyBaseOf, Route.keyWords_eq_filter]

/-- A route has one key base. -/
lemma IsKeyBase.eq {route : Route} {base : String} (h : IsKeyBase route base) :
    keyBaseOf route = base := by
  obtain ⟨below, hbelow, hbase⟩ := h
  rw [← String.toList_inj, hbase, toList_keyBaseOf, Route.keyWords_eq_filter,
    Route.apiSegments_of_isBelow hbelow]

/-- No key base is empty, since no word is. -/
lemma keyBaseOf_ne_empty (route : Route) : keyBaseOf route ≠ "" := by
  rw [ne_eq, ← String.toList_eq_nil_iff, toList_keyBaseOf]
  cases hwords : route.keyWords with
  | nil => simp
  | cons word words =>
    have hword : word ≠ [] := by
      rintro rfl
      exact Route.nil_notMem_keyWords route (by simp [hwords])
    cases words with
    | nil => simpa [List.intercalate_singleton] using hword
    | cons next rest => simp [List.intercalate_cons_cons]

/-! ## Assignment -/

/-- The policy that a route is assigned under a strategy. -/
inductive Assigned (policies : Settings.Policies) (route : Route) : Strategy → Policy → Prop where
  /-- The route is listed, and the strategy asks the table. -/
  | listed {strategy : Strategy} {key : String} {policy : Policy} (hstrategy : strategy ≠ .keywords)
      (hlisted : Greatest policies.routes route (key, policy)) :
      Assigned policies route strategy policy
  /-- The route is not listed, and the strategy asks nothing but the table. -/
  | default {base : String} (hunlisted : ∀ entry ∈ policies.routes, Route.ofText entry.1 ≠ route)
      (hbase : IsKeyBase route base) :
      Assigned policies route .table ⟨policies.defaultTag, policies.defaultRevalidate, base⟩
  /-- The strategy asks the keywords, and either does not ask the table or does not find the route
  there. The two lists of rules are gone through independently. -/
  | inferred {strategy : Strategy} {tag : Tag} {seconds : Nat} {base : String}
      (hstrategy : strategy ≠ .table)
      (hunlisted : strategy = .keywords ∨ ∀ entry ∈ policies.routes, Route.ofText entry.1 ≠ route)
      (htag : Picks (·.keyword) (·.tag) route.text policies.tags policies.defaultTag tag)
      (hseconds : Picks (·.keyword) (·.revalidate) route.text policies.durations
        policies.defaultRevalidate seconds)
      (hbase : IsKeyBase route base) :
      Assigned policies route strategy ⟨tag, seconds, base⟩

/-- The catalog of accepted tables. -/
lemma ofSettings_eq_ok_iff {policies : Settings.Policies} {catalog : Catalog} :
    ofSettings policies = .ok catalog ↔ flaw? policies = none ∧
      catalog = ⟨policies.strategy, exactTable policies.routes, policies.durations, policies.tags,
        policies.defaultRevalidate, policies.defaultTag⟩ := by
  unfold ofSettings
  cases flaw? policies with
  | none => simp [eq_comm]
  | some flaw => simp

section Resolving

variable {policies : Settings.Policies} {catalog : Catalog} {route : Route} {strategy : Strategy}
  {policy : Policy}

/-- A policy is listed for a route exactly if the strategy looks at exact policies and it is that of
the greatest entry for the route. -/
lemma listed?_eq_some_iff (hascending : (policies.routes.map (·.1)).Pairwise (· < ·))
    (haccepted : ofSettings policies = .ok catalog) :
    { catalog with strategy := strategy }.listed? route = some policy
      ↔ strategy ≠ .keywords ∧ ∃ key, Greatest policies.routes route (key, policy) := by
  obtain ⟨-, rfl⟩ := ofSettings_eq_ok_iff.mp haccepted
  rw [← find?_exactTable_eq_some_iff hascending]
  by_cases hstrategy : strategy = .keywords
  · simp [listed?, hstrategy]
  · simp [listed?, tabled?, hstrategy]

/-- No policy is listed for a route exactly if the strategy has keywords only, or there is no entry
for it. -/
lemma listed?_eq_none_iff (haccepted : ofSettings policies = .ok catalog) :
    { catalog with strategy := strategy }.listed? route = none
      ↔ strategy = .keywords ∨ ∀ entry ∈ policies.routes, Route.ofText entry.1 ≠ route := by
  obtain ⟨-, rfl⟩ := ofSettings_eq_ok_iff.mp haccepted
  rw [← find?_exactTable_eq_none_iff]
  by_cases hstrategy : strategy = .keywords
  · simp [listed?, hstrategy]
  · simp [listed?, tabled?, hstrategy]

/-- The strategies that ask the keywords infer a policy from them. -/
lemma infer_of_ne_table (hstrategy : catalog.strategy ≠ .table) :
    catalog.infer route = ⟨catalog.tagOf route, catalog.durationOf route, keyBaseOf route⟩ := by
  unfold infer
  cases h : catalog.strategy with
  | table => exact absurd h hstrategy
  | layered | keywords => rfl

/-- What a catalog gives a route is assigned to it. -/
lemma assigned_resolve (hascending : (policies.routes.map (·.1)).Pairwise (· < ·))
    (haccepted : ofSettings policies = .ok catalog) (strategy : Strategy) (route : Route) :
    Assigned policies route strategy ({ catalog with strategy := strategy }.resolve route) := by
  unfold resolve
  cases hlisted : { catalog with strategy := strategy }.listed? route with
  | some policy =>
    obtain ⟨hstrategy, key, hgreatest⟩ := (listed?_eq_some_iff hascending haccepted).mp hlisted
    exact .listed hstrategy hgreatest
  | none =>
    have hunlisted := (listed?_eq_none_iff haccepted).mp hlisted
    obtain ⟨-, rfl⟩ := ofSettings_eq_ok_iff.mp haccepted
    rw [Option.getD_none]
    by_cases hstrategy : strategy = .table
    · subst hstrategy
      exact .default (hunlisted.resolve_left (by simp)) (isKeyBase_keyBaseOf route)
    · rw [infer_of_ne_table hstrategy, tagOf_eq, durationOf_eq]
      exact .inferred hstrategy hunlisted (picks_find? _ _ _ _ _) (picks_find? _ _ _ _ _)
        (isKeyBase_keyBaseOf route)

/-- What is assigned to a route is what a catalog gives it. -/
lemma Assigned.resolve_eq (h : Assigned policies route strategy policy)
    (hascending : (policies.routes.map (·.1)).Pairwise (· < ·))
    (haccepted : ofSettings policies = .ok catalog) :
    { catalog with strategy := strategy }.resolve route = policy := by
  unfold resolve
  cases h with
  | listed hstrategy hgreatest =>
    rw [(listed?_eq_some_iff hascending haccepted).mpr ⟨hstrategy, _, hgreatest⟩]
    rfl
  | default hunlisted hbase =>
    rw [(listed?_eq_none_iff haccepted).mpr (.inr hunlisted), Option.getD_none]
    obtain ⟨-, rfl⟩ := ofSettings_eq_ok_iff.mp haccepted
    rw [infer, hbase.eq]
  | inferred hstrategy hunlisted htag hseconds hbase =>
    rw [(listed?_eq_none_iff haccepted).mpr hunlisted, Option.getD_none]
    obtain ⟨-, rfl⟩ := ofSettings_eq_ok_iff.mp haccepted
    rw [infer_of_ne_table hstrategy, tagOf_eq, durationOf_eq, htag.eq, hseconds.eq, hbase.eq]

end Resolving

/-- **The policy of a route.** Whatever strategy is chosen for the catalog of accepted tables, every
route has the policy that it is assigned, and no other. -/
theorem resolve_eq_iff_assigned {policies : Settings.Policies} {catalog : Catalog}
    (hascending : (policies.routes.map (·.1)).Pairwise (· < ·))
    (haccepted : ofSettings policies = .ok catalog) (strategy : Strategy) (route : Route)
    (policy : Policy) :
    { catalog with strategy := strategy }.resolve route = policy
      ↔ Assigned policies route strategy policy := by
  constructor
  · rintro rfl
    exact assigned_resolve hascending haccepted strategy route
  · intro h
    exact h.resolve_eq hascending haccepted

/-- Two texts for one route, where the smaller one has an entry that would not be accepted, and rules
of which the more specific ones come first. -/
def shadowed : Settings.Policies where
  routes := [("./api/r/f", ⟨.teams, 0, ""⟩), ("api/r/f", ⟨.teams, 900, "new"⟩)]
  durations := [⟨"sr", 60⟩, ⟨"s", 3600⟩]
  tags := [⟨"s", .services⟩]

/-- The routes of the example are in ascending order. -/
lemma shadowed_ascending : (shadowed.routes.map (·.1)).Pairwise (· < ·) := by
  decide +kernel

/-- The example is accepted. -/
lemma shadowed_accepted : ∃ catalog, ofSettings shadowed = .ok catalog := by
  have hflaw : flaw? shadowed = none := by decide +kernel
  exact ⟨_, ofSettings_eq_ok_iff.mpr ⟨hflaw, rfl⟩⟩

/-- The greater text counts in the table, and the first keyword of each list elsewhere. -/
theorem resolve_eq_iff_assigned_shadowed :
    (shadowed.routes.map (·.1)).Pairwise (· < ·) ∧
      (∃ catalog, ofSettings shadowed = .ok catalog) ∧
      Assigned shadowed ⟨"api/r/f"⟩ .layered ⟨.teams, 900, "new"⟩ ∧
      Assigned shadowed ⟨"api/sr/[id]/f"⟩ .keywords ⟨.services, 60, "sr"⟩ := by
  obtain ⟨catalog, haccepted⟩ := shadowed_accepted
  refine ⟨shadowed_ascending, ⟨catalog, haccepted⟩, ?_, ?_⟩
  · rw [← resolve_eq_iff_assigned shadowed_ascending haccepted]
    obtain ⟨-, rfl⟩ := ofSettings_eq_ok_iff.mp haccepted
    decide +kernel
  · rw [← resolve_eq_iff_assigned shadowed_ascending haccepted]
    obtain ⟨-, rfl⟩ := ofSettings_eq_ok_iff.mp haccepted
    decide +kernel

/-! ## Soundness -/

/-- Durations of rules and defaults are positive, so any duration that is picked is. -/
lemma Picks.pos {keyword : Settings.DurationRule → String} {text : String}
    {rules : List Settings.DurationRule} {default seconds : Nat}
    (h : Picks keyword (·.revalidate) text rules default seconds) (hdefault : 0 < default)
    (hrules : ∀ rule ∈ rules, 0 < rule.revalidate) : 0 < seconds := by
  cases h with
  | first heq _ _ => exact hrules _ (by simp [heq])
  | default _ => exact hdefault

/-- What sound settings assign has a positive duration and a key. -/
lemma Assigned.sound {policies : Settings.Policies} {route : Route} {strategy : Strategy}
    {policy : Policy} (h : Assigned policies route strategy policy) (hsound : Sound policies) :
    0 < policy.revalidate ∧ policy.keyBase ≠ "" := by
  cases h with
  | listed _ hgreatest =>
    refine ⟨hsound.listed_pos _ _ _ hgreatest, fun hempty => ?_⟩
    obtain ⟨c, hc, -⟩ := hsound.listed_key _ _ _ hgreatest
    simp [hempty] at hc
  | default _ hbase =>
    exact ⟨hsound.default_pos, hbase.eq ▸ keyBaseOf_ne_empty route⟩
  | inferred _ _ _ hseconds hbase =>
    exact ⟨hseconds.pos hsound.default_pos hsound.duration_pos,
      hbase.eq ▸ keyBaseOf_ne_empty route⟩

/-- **Sound settings, sound policies.** Tables are accepted exactly if they are sound; and then every
route has, under every strategy, a policy with a positive duration and a key base that is not
empty. -/
theorem ofSettings_sound_iff {policies : Settings.Policies}
    (hascending : (policies.routes.map (·.1)).Pairwise (· < ·)) :
    ((∃ catalog, ofSettings policies = .ok catalog) ↔ Sound policies) ∧
      ∀ catalog, ofSettings policies = .ok catalog → ∀ (strategy : Strategy) (route : Route),
        0 < ({ catalog with strategy := strategy }.resolve route).revalidate ∧
          ({ catalog with strategy := strategy }.resolve route).keyBase ≠ "" := by
  constructor
  · rw [← flaw?_eq_none_iff hascending]
    simp [ofSettings_eq_ok_iff]
  · intro catalog haccepted strategy route
    have hsound := (flaw?_eq_none_iff hascending).mp (ofSettings_eq_ok_iff.mp haccepted).1
    exact (assigned_resolve hascending haccepted strategy route).sound hsound

/-- An entry without a duration and without a key, for a route that a greater text denotes too. -/
theorem ofSettings_sound_iff_shadowed :
    (shadowed.routes.map (·.1)).Pairwise (· < ·) ∧ Sound shadowed ∧
      ("./api/r/f", ⟨.teams, 0, ""⟩) ∈ shadowed.routes ∧
      ∃ catalog, ofSettings shadowed = .ok catalog ∧
        0 < ({ catalog with strategy := .table }.resolve ⟨"api/r/f"⟩).revalidate := by
  obtain ⟨catalog, haccepted⟩ := shadowed_accepted
  obtain ⟨hiff, hpolicies⟩ := ofSettings_sound_iff shadowed_ascending
  exact ⟨shadowed_ascending, hiff.mp ⟨catalog, haccepted⟩, List.mem_cons_self, catalog, haccepted,
    (hpolicies catalog haccepted .table ⟨"api/r/f"⟩).1⟩

end CachedRoutes.Catalog
