import CachedRoutes.Proofs.Policy.Resolve
import CachedRoutes.Proofs.Query.KeyValue

/-!
# Keys of inferred policies

A route that is not listed gets its key from its own path: the words of the path make the base, and
the parameters are read behind it. Routes with the same key share their entries of the cache. Here is
what two such routes have in common.

* **Bases.** `keyBaseOf_eq_iff`: dashes join the words, so that a base says where words end only up to
  the dashes in them.
* **Texts.** `keyLiteral_eq_iff`: the text of a key has the base and the names in it, as long as no
  name has a closing brace.
* **Routes.** `inferred_keys_eq_iff`: two routes have the same key exactly if they have the same words
  between dashes and the same names. What is lost are the dashes in words, the places of parameters
  among the words, and the brackets; `inferred_keys_collide` has a pair of routes for each.
-/

namespace CachedRoutes

/-! ## Bases -/

/-- Two routes with words have the same base if the words are the same between dashes. -/
lemma Catalog.keyBaseOf_eq_iff {a b : Route} (ha : a.keyWords ≠ []) (hb : b.keyWords ≠ []) :
    keyBaseOf a = keyBaseOf b
      ↔ a.keyWords.flatMap (Text.fields '-') = b.keyWords.flatMap (Text.fields '-') := by
  rw [← String.toList_inj, toList_keyBaseOf, toList_keyBaseOf, if_neg ha, if_neg hb,
    ← Text.fields_intercalate_flatMap ha, ← Text.fields_intercalate_flatMap hb]
  constructor
  · intro h
    rw [h]
  · intro h
    rw [← Text.intercalate_fields '-' (['-'].intercalate a.keyWords), h, Text.intercalate_fields]

/-- Words without dashes are the words between dashes. -/
lemma Route.keyWords_flatMap_fields {route : Route} (h : ∀ word ∈ route.keyWords, '-' ∉ word) :
    route.keyWords.flatMap (Text.fields '-') = route.keyWords := by
  have hwords : ∀ word ∈ route.keyWords, Text.fields '-' word = [word] := fun word hword =>
    Text.fields_of_not_mem (h word hword)
  rw [List.flatMap_congr hwords, List.flatMap_singleton']

/-! ## Texts -/

namespace Query

/-- Bases that are escaped to the same text are the same. -/
lemma escapeQuoted_injective {base other : List Char} (h : escapeQuoted base = escapeQuoted other) :
    base = other := by
  induction base generalizing other with
  | nil =>
    cases other with
    | nil => rfl
    | cons c other =>
      rw [escapeQuoted, escapeQuoted] at h
      split at h <;> simp at h
  | cons c base ih =>
    cases other with
    | nil =>
      rw [escapeQuoted, escapeQuoted] at h
      split at h <;> simp at h
    | cons d other =>
      rw [escapeQuoted, escapeQuoted] at h
      split at h
      · split at h
        · simp only [List.cons.injEq, true_and] at h
          rw [h.1, ih h.2]
        · rename_i hd
          obtain ⟨rfl, -⟩ := List.cons.inj h
          simp at hd
      · rename_i hc
        split at h
        · obtain ⟨rfl, -⟩ := List.cons.inj h
          simp at hc
        · obtain ⟨rfl, hrest⟩ := List.cons.inj h
          rw [ih hrest]

/-- What stands in front of the first interpolation, without the backslashes of escapes, and what
stands behind its opening brace. -/
def upToCode : List Char → List Char × List Char
  | [] => ([], [])
  | '$' :: '\x7b' :: rest => ([], rest)
  | '\\' :: c :: rest => (c :: (upToCode rest).1, (upToCode rest).2)
  | c :: rest => (c :: (upToCode rest).1, (upToCode rest).2)

/-- A character that neither escapes nor opens anything belongs to the text in front of the code. -/
lemma upToCode_cons {c : Char} {rest : List Char} (hescape : c ≠ '\\')
    (hopen : c = '$' → rest.head? ≠ some '\x7b') :
    upToCode (c :: rest) = (c :: (upToCode rest).1, (upToCode rest).2) := by
  rw [upToCode]
  · rintro tail rfl rfl
    exact absurd rfl (hopen rfl)
  · rintro e tail rfl
    exact absurd rfl hescape

/-- The first interpolation in front of which the base stands is that of the first parameter. -/
lemma upToCode_escapeTemplate (base rest : List Char) :
    upToCode (escapeTemplate base ++ '-' :: '$' :: '\x7b' :: rest) = (base ++ ['-'], rest) := by
  have hescaped := @escaped_escapeTemplate ('-' :: '$' :: '\x7b' :: rest) (by simp) (by simp) base
  generalize escapeTemplate base ++ '-' :: '$' :: '\x7b' :: rest = text at hescaped ⊢
  induction hescaped with
  | nil =>
    rw [upToCode_cons (by decide) (by simp), upToCode]
    rfl
  | escape _ _ ih => rw [upToCode, ih, List.cons_append]
  | char _ hescape hopen _ _ ih => rw [upToCode_cons hescape hopen, ih, List.cons_append]

/-- Names without closing braces can be read back. -/
lemma interpolations_injective {params : List Char} {parameters others : List (List Char)}
    (hparameters : ∀ name ∈ parameters, '\x7d' ∉ name) (hothers : ∀ name ∈ others, '\x7d' ∉ name)
    (h : parameters.flatMap (interpolation params) ++ [Code.backtick]
      = others.flatMap (interpolation params) ++ [Code.backtick]) : parameters = others := by
  induction parameters generalizing others with
  | nil =>
    cases others with
    | nil => rfl
    | cons other others => simp [interpolation, Code.backtick] at h
  | cons parameter parameters ih =>
    cases others with
    | nil => simp [interpolation, Code.backtick] at h
    | cons other others =>
      obtain ⟨hparameter, hrest⟩ := List.forall_mem_cons.mp hparameters
      obtain ⟨hother, hbehind⟩ := List.forall_mem_cons.mp hothers
      simp only [interpolations_cons, List.append_assoc, List.cons_append, List.cons.injEq, true_and,
        List.append_cancel_left_eq] at h
      have hname := congrArg (Text.fields '\x7d') h
      rw [Text.fields_append hparameter, Text.fields_append hother] at hname
      obtain rfl := (List.cons.inj hname).1
      rw [List.append_cancel_left_eq, List.cons.injEq] at h
      exact congrArg _ (ih hrest hbehind h.2)

/-- **The text of a key** has its base and its names in it. -/
lemma keyLiteral_eq_iff {params base other : List Char} {parameters others : List (List Char)}
    (hparameters : ∀ name ∈ parameters, '\x7d' ∉ name) (hothers : ∀ name ∈ others, '\x7d' ∉ name) :
    keyLiteral params base parameters = keyLiteral params other others
      ↔ base = other ∧ parameters = others := by
  refine ⟨fun h => ?_, fun ⟨hbase, hnames⟩ => by rw [hbase, hnames]⟩
  cases parameters with
  | nil =>
    cases others with
    | nil =>
      simp only [keyLiteral, List.isEmpty_nil, if_true, List.append_cancel_left_eq,
        List.append_cancel_right_eq] at h
      exact ⟨escapeQuoted_injective h, rfl⟩
    | cons name others => simp [keyLiteral] at h
  | cons name parameters =>
    cases others with
    | nil => simp [keyLiteral] at h
    | cons name' others =>
      rw [keyLiteral_cons, keyLiteral_cons] at h
      have hread := congrArg upToCode (List.cons.inj h).2
      rw [interpolations_cons, interpolations_cons, upToCode_escapeTemplate,
        upToCode_escapeTemplate, Prod.mk.injEq] at hread
      obtain ⟨hbase, hcode⟩ := hread
      have htexts : (name :: parameters).flatMap (interpolation params) ++ [Code.backtick]
          = (name' :: others).flatMap (interpolation params) ++ [Code.backtick] := by
        rw [interpolations_cons, interpolations_cons, hcode]
      exact ⟨List.append_cancel_right hbase, interpolations_injective hparameters hothers htexts⟩

end Query

/-! ## Routes -/

namespace Catalog

/-- Two routes have the same base and the same parameters, so that they have the same key. -/
def SameKey (catalog : Catalog) (a b : Route) : Prop :=
  (catalog.resolve a).keyBase = (catalog.resolve b).keyBase ∧ a.parameters = b.parameters

instance (catalog : Catalog) (a b : Route) : Decidable (catalog.SameKey a b) :=
  inferInstanceAs (Decidable (_ ∧ _))

/-- The text of a route's key. -/
def keyText (catalog : Catalog) (params : List Char) (route : Route) : List Char :=
  Query.keyLiteral params (catalog.resolve route).keyBase.toList route.parameters

/-- A route that is not listed has the base that its words make. -/
lemma keyBase_resolve {catalog : Catalog} {route : Route} (h : catalog.listed? route = none) :
    (catalog.resolve route).keyBase = keyBaseOf route := by
  rw [resolve, h, Option.getD_none, infer]
  split <;> rfl

/-- **Routes with the same key.** Two routes with words that are not listed have the same key exactly
if they have the same words between dashes and the same parameters. If no name has a closing brace,
then the texts of their keys are the same exactly if the keys are. If no word has a dash, then routes
whose segments are of the same forms have the same key only if they have the same segments. -/
theorem inferred_keys_eq_iff {catalog : Catalog} {a b : Route}
    (ha : catalog.listed? a = none) (hb : catalog.listed? b = none)
    (hwordsA : a.keyWords ≠ []) (hwordsB : b.keyWords ≠ []) :
    (catalog.SameKey a b
      ↔ a.keyWords.flatMap (Text.fields '-') = b.keyWords.flatMap (Text.fields '-') ∧
        a.parameters = b.parameters) ∧
    ((∀ name ∈ a.parameters ++ b.parameters, '\x7d' ∉ name) →
      ∀ params, catalog.keyText params a = catalog.keyText params b ↔ catalog.SameKey a b) ∧
    ((∀ word ∈ a.keyWords ++ b.keyWords, '-' ∉ word) →
      (a.segments = b.segments
        ↔ catalog.SameKey a b ∧ List.Forall₂ Route.SameForm a.segments b.segments)) := by
  have hkey : catalog.SameKey a b
      ↔ a.keyWords.flatMap (Text.fields '-') = b.keyWords.flatMap (Text.fields '-') ∧
        a.parameters = b.parameters := by
    rw [SameKey, keyBase_resolve ha, keyBase_resolve hb, keyBaseOf_eq_iff hwordsA hwordsB]
  refine ⟨hkey, ?_, ?_⟩
  · intro hnames params
    rw [List.forall_mem_append] at hnames
    rw [keyText, keyText, Query.keyLiteral_eq_iff hnames.1 hnames.2, String.toList_inj, SameKey]
  · intro hdashes
    rw [List.forall_mem_append] at hdashes
    rw [hkey, Route.keyWords_flatMap_fields hdashes.1, Route.keyWords_flatMap_fields hdashes.2,
      Route.segments_eq_iff, and_comm]

/-- Two routes of one form, with a group in front of one of them. -/
theorem inferred_keys_eq_iff_members :
    let catalog : Catalog := ⟨.keywords, [], [], [], 300, .general⟩
    let a : Route := ⟨"app/api/(v1)/teams/[id]/route.ts"⟩
    let b : Route := ⟨"app/api/users/[id]/route.ts"⟩
    (catalog.listed? a = none ∧ catalog.listed? b = none ∧ a.keyWords ≠ [] ∧ b.keyWords ≠ []) ∧
      ¬ catalog.SameKey a b ∧ catalog.keyText "params".toList a ≠ catalog.keyText "params".toList b ∧
      a.segments ≠ b.segments := by
  intro catalog a b
  have hwordsA : a.keyWords = ["teams".toList] := by decide +kernel
  have hwordsB : b.keyWords = ["users".toList] := by decide +kernel
  have hneA : a.keyWords ≠ [] := by simp [hwordsA]
  have hneB : b.keyWords ≠ [] := by simp [hwordsB]
  obtain ⟨hkey, htext, hsegments⟩ := @inferred_keys_eq_iff catalog a b rfl rfl hneA hneB
  have hdiffer : ¬ catalog.SameKey a b := by
    rw [hkey, hwordsA, hwordsB]
    decide
  refine ⟨⟨rfl, rfl, hneA, hneB⟩, hdiffer, ?_, ?_⟩
  · rw [ne_eq, htext (by decide +kernel)]
    exact hdiffer
  · intro hsame
    rw [hsegments (by rw [hwordsA, hwordsB]; decide)] at hsame
    exact hdiffer hsame.1

/-- **Different routes with the same key**: a dash in a word and a dash between words, a parameter
behind a word and in front of it, a parameter for one directory and for many of them. The text of a
key can also be the same if the keys are not. -/
theorem inferred_keys_collide :
    let catalog : Catalog := ⟨.keywords, [], [], [], 300, .general⟩
    let collide (a b : Route) := a.segments ≠ b.segments ∧ catalog.SameKey a b
    collide ⟨"app/api/a-b/route.ts"⟩ ⟨"app/api/a/b/route.ts"⟩ ∧
      collide ⟨"app/api/users/[id]/route.ts"⟩ ⟨"app/api/[id]/users/route.ts"⟩ ∧
      collide ⟨"app/api/users/[id]/route.ts"⟩ ⟨"app/api/users/[...id]/route.ts"⟩ ∧
      let a : Route := ⟨"app/api/users/[a]/[b]/route.ts"⟩
      let b : Route := ⟨"app/api/users/[a\x7d-$\x7bparams.b]/route.ts"⟩
      ¬ catalog.SameKey a b ∧
        catalog.keyText "params".toList a = catalog.keyText "params".toList b := by
  decide +kernel

end Catalog

end CachedRoutes
