import CachedRoutes.Codemod
import CachedRoutes.Proofs.Import.Ensure
import CachedRoutes.Proofs.Query.Wrap
import CachedRoutes.Proofs.Settings.Check

/-!
# A second run changes nothing

A run on a text that may be changed ends with the text that the import stage gives, or with that
text and its query wrapped (`edit_text`). Which of the two it is depends on the imported text alone,
and that is what a second run starts from.

* **After a wrap** (`run_of_wrappedText?`): the new text still exports its handler and calls the
  wrapper, so a second run finds it cached.
* **Without a wrap** (`run_of_imported`): a second run ensures the same imports and abstains again.
* **Together** (`run_idempotent`), for checked settings with plain module specifiers.
-/

namespace CachedRoutes.Codemod

open Code (IsName)

/-! ## The text that a run ends with -/

/-- The imported text with its query wrapped, if it comes to that. -/
def wrappedText? (codemod : Codemod) (route : Route) (policy : Policy) (text : List Char) :
    Option (List Char) :=
  if codemod.wrapping.enabled && (Import.missing codemod.imports text).isEmpty then
    match Query.wrap codemod.wrapping route policy text with
    | .wrapped _ wrapped => some wrapped
    | _ => none
  else none

/-- The stages behind the policy give the wrapped text if there is one, and the imported text
otherwise. -/
lemma edit_text (codemod : Codemod) (route : Route) (policy : Policy) (text : List Char)
    (ensured : Import.Ensured) :
    (codemod.edit route policy text ensured).text
      = (codemod.wrappedText? route policy ensured.text).getD ensured.text := by
  unfold edit wrappedText?
  by_cases henabled : codemod.wrapping.enabled = true
  · cases hmissing : Import.missing codemod.imports ensured.text with
    | cons required rest => simp [henabled]
    | nil =>
      simp only [henabled, wrapStage]
      cases Query.wrap codemod.wrapping route policy ensured.text with
      | wrapped query wrapped => rfl
      | alreadyWrapped => rfl
      | abstained why => by_cases hsame : ensured.text = text <;> simp [hsame]
  · by_cases hsame : ensured.text = text <;> simp [henabled, importsOnly, hsame]

/-- A run says that it wrapped the query exactly if it did. -/
lemma edit_result_eq_wrapped_iff (codemod : Codemod) (route : Route) (policy : Policy)
    (text : List Char) (ensured : Import.Ensured) :
    (codemod.edit route policy text ensured).result = .wrapped ↔
      (codemod.wrappedText? route policy ensured.text).isSome = true := by
  unfold edit wrappedText?
  by_cases henabled : codemod.wrapping.enabled = true
  · cases hmissing : Import.missing codemod.imports ensured.text with
    | cons required rest => simp [henabled]
    | nil =>
      simp only [henabled, wrapStage]
      cases Query.wrap codemod.wrapping route policy ensured.text with
      | wrapped query wrapped => simp
      | alreadyWrapped => simp
      | abstained why => by_cases hsame : ensured.text = text <;> simp [hsame]
  · by_cases hsame : ensured.text = text <;> simp [henabled, importsOnly, hsame]

/-- A run on a text that may be changed. -/
lemma run_of_obstacle?_eq_none {codemod : Codemod} {route : Route} {text : List Char}
    (h : Eligibility.obstacle? codemod.eligibility codemod.wrapping.wrapper route text = none) :
    let imported := (Import.ensure codemod.imports text).text
    let wrapped? := codemod.wrappedText? route (codemod.catalog.resolve route) imported
    (codemod.run route text).content
        = (if wrapped?.getD imported = text then none else some (wrapped?.getD imported)) ∧
      ((codemod.run route text).result = .wrapped ↔ wrapped?.isSome = true) := by
  intro imported wrapped?
  unfold run
  rw [h]
  dsimp only
  rw [edit_text, edit_result_eq_wrapped_iff]
  exact ⟨rfl, Iff.rfl⟩

/-- A run that an obstacle stops. -/
lemma run_of_obstacle?_eq_some {codemod : Codemod} {route : Route} {text : List Char}
    {obstacle : Eligibility.Obstacle}
    (h : Eligibility.obstacle? codemod.eligibility codemod.wrapping.wrapper route text
      = some obstacle) :
    (codemod.run route text).content = none ∧
      (codemod.run route text).result = .ofObstacle obstacle := by
  unfold run
  rw [h]
  exact ⟨rfl, rfl⟩

/-! ## The second run -/

/-- A codemod whose names can be written into code. -/
structure Writable (codemod : Codemod) : Prop where
  imports : Import.Writable codemod.imports
  clients : ∀ client ∈ codemod.wrapping.clients, IsName client.toList

/-- What it means that nothing stands in the way. -/
lemma obstacle?_eq_none_iff {eligibility : Settings.Eligibility} {wrapper : String} {route : Route}
    {text : List Char} : Eligibility.obstacle? eligibility wrapper route text = none ↔
      Eligibility.excludedBy? eligibility route = none ∧ Eligibility.hasGetHandler text = true ∧
        Eligibility.isCached wrapper text = false := by
  unfold Eligibility.obstacle?
  cases Eligibility.excludedBy? eligibility route with
  | some pattern => simp
  | none =>
    cases Eligibility.hasGetHandler text <;> cases Eligibility.isCached wrapper text <;> simp

/-- A wrapped text comes from the single query of the text. -/
lemma wrappedText?_eq_some {codemod : Codemod} {route : Route} {policy : Policy}
    {text new : List Char} (h : codemod.wrappedText? route policy text = some new) :
    ∃ query ∈ Query.findAll codemod.wrapping text,
      new = Query.wrapText codemod.wrapping policy route.parameters text query := by
  unfold wrappedText? at h
  split at h
  · split at h
    · rename_i query wrapped hwrap
      obtain rfl := Option.some.inj h
      unfold Query.wrap at hwrap
      split at hwrap
      · simp at hwrap
      · split at hwrap
        · simp at hwrap
        · rename_i found hfound
          split at hwrap
          · simp at hwrap
          · obtain ⟨rfl, rfl⟩ := Query.Attempt.wrapped.inj hwrap
            exact ⟨found, by simp [hfound], rfl⟩
        · simp at hwrap
    · simp at h
  · simp at h

/-- **After a wrap a run finds the text cached.** -/
lemma run_of_wrappedText? {codemod : Codemod} (hcodemod : codemod.Writable) {route : Route}
    {policy : Policy} {text new : List Char}
    (hexcluded : Eligibility.excludedBy? codemod.eligibility route = none)
    (hget : Eligibility.hasGetHandler text = true)
    (h : codemod.wrappedText? route policy text = some new) :
    (codemod.run route new).content = none ∧
      (codemod.run route new).result = .alreadyCached := by
  obtain ⟨query, hquery, rfl⟩ := wrappedText?_eq_some h
  obtain ⟨a, gap, calls, b, hstands⟩ := Query.mem_findAll hquery
  have hhandler := Query.hasGetHandler_wrapText hstands
    (hcodemod.clients query.client hstands.client_mem) policy route.parameters hget
  have hcached := Query.callsFunction_wrapText codemod.wrapping policy route.parameters text query
  have hobstacle : Eligibility.obstacle? codemod.eligibility codemod.wrapping.wrapper route
      (Query.wrapText codemod.wrapping policy route.parameters text query)
        = some .alreadyCached := by
    simp [Eligibility.obstacle?, hexcluded, hhandler, Eligibility.isCached, hcached]
  exact run_of_obstacle?_eq_some hobstacle

/-- **A text that the import stage leaves alone and whose query is not wrapped stays.** -/
lemma run_of_imported {codemod : Codemod} {route : Route} {text : List Char}
    (himported : (Import.ensure codemod.imports text).text = text)
    (hnone : codemod.wrappedText? route (codemod.catalog.resolve route) text = none) :
    (codemod.run route text).content = none := by
  cases hobstacle : Eligibility.obstacle? codemod.eligibility codemod.wrapping.wrapper route text with
  | some obstacle => exact (run_of_obstacle?_eq_some hobstacle).1
  | none =>
    rw [(run_of_obstacle?_eq_none hobstacle).1, himported, hnone]
    simp

/-- A second run, for a codemod whose names can be written into code. -/
lemma run_run {codemod : Codemod} (hcodemod : codemod.Writable) {route : Route}
    {text new : List Char} (h : (codemod.run route text).content = some new) :
    (codemod.run route new).content = none ∧
      ((codemod.run route text).result = .wrapped →
        (codemod.run route new).result = .alreadyCached) := by
  cases hobstacle : Eligibility.obstacle? codemod.eligibility codemod.wrapping.wrapper route text with
  | some obstacle =>
    rw [(run_of_obstacle?_eq_some hobstacle).1] at h
    simp at h
  | none =>
    obtain ⟨hcontent, hresult⟩ := run_of_obstacle?_eq_none hobstacle
    obtain ⟨hexcluded, hget, -⟩ := obstacle?_eq_none_iff.mp hobstacle
    rw [h] at hcontent
    rw [hresult]
    cases hwrapped : codemod.wrappedText? route (codemod.catalog.resolve route)
        (Import.ensure codemod.imports text).text with
    | some wrapped =>
      rw [hwrapped, Option.getD_some] at hcontent
      obtain rfl : new = wrapped := by
        split at hcontent
        · simp at hcontent
        · exact Option.some.inj hcontent
      obtain ⟨hnone, hcached⟩ := run_of_wrappedText? hcodemod hexcluded
        (Import.hasGetHandler_ensure hget) hwrapped
      exact ⟨hnone, fun _ => hcached⟩
    | none =>
      rw [hwrapped, Option.getD_none] at hcontent
      obtain rfl : new = (Import.ensure codemod.imports text).text := by
        split at hcontent
        · simp at hcontent
        · exact Option.some.inj hcontent
      refine ⟨run_of_imported (Import.ensure_ensure_text hcodemod.imports text) hwrapped, ?_⟩
      intro hsome
      simp at hsome

/-! ## Checked settings -/

/-- Checked settings have a codemod, and it takes over their sections. -/
lemma ofSettings_eq_ok {settings : Settings} (h : settings.violation? = none) :
    ∃ codemod, ofSettings settings = .ok codemod ∧ codemod.imports = settings.imports ∧
      codemod.wrapping = settings.wrap := by
  have hflaw : Catalog.flaw? settings.policy = none := by
    unfold Settings.violation? at h
    split at h
    · simp at h
    · split at h
      · simp at h
      · assumption
  unfold ofSettings Catalog.ofSettings
  rw [hflaw]
  exact ⟨_, rfl, rfl, rfl⟩

/-- Valid settings with plain specifiers make a codemod whose additions can be written. -/
lemma writable_of_settings {settings : Settings} {codemod : Codemod}
    (h : settings.violation? = none)
    (hspecifiers : ∀ required ∈ settings.imports.required,
      Import.PlainSpecifier required.specifier.toList)
    (himports : codemod.imports = settings.imports)
    (hclients : codemod.wrapping.clients = settings.wrap.clients) : codemod.Writable := by
  constructor
  · rw [himports]
    exact ⟨fun required hmem => Settings.isName_symbol h hmem, hspecifiers⟩
  · rw [hclients]
    intro client hmem
    have hwrap := Settings.Wrapping.violation?_eq_none_iff.mp (Settings.violation?_eq_none h).1
    exact Code.isName_of_isIdentifier (hwrap.2.2.2 client hmem)

/-- **A run on its own result changes nothing.** Checked settings whose needed modules have no quote
and no line feed in their specifiers have a codemod; and under every strategy, with wrapping on or
off, if it gives a file new content, it gives that content no new content, and finds it cached if it
wrapped its query. -/
theorem run_idempotent {settings : Settings} (h : settings.violation? = none)
    (hspecifiers : ∀ required ∈ settings.imports.required,
      Import.PlainSpecifier required.specifier.toList) :
    ∃ codemod, ofSettings settings = .ok codemod ∧
      ∀ (strategy : Strategy) (enabled : Bool) (route : Route) (text new : List Char),
        let chosen := (codemod.withStrategy strategy).withWrapping enabled
        (chosen.run route text).content = some new →
          (chosen.run route new).content = none ∧
            ((chosen.run route text).result = .wrapped →
              (chosen.run route new).result = .alreadyCached) := by
  obtain ⟨codemod, hok, himports, hwrapping⟩ := ofSettings_eq_ok h
  refine ⟨codemod, hok, ?_⟩
  intro strategy enabled route text new chosen hnew
  have hchosen : chosen.imports = settings.imports := himports
  have hclients : chosen.wrapping.clients = settings.wrap.clients := by rw [← hwrapping]; rfl
  exact run_run (writable_of_settings h hspecifiers hchosen hclients) hnew

/-- With the default settings and no policy tables, a route without the needed imports is wrapped by
the first run and found cached by the second. -/
theorem run_idempotent_users :
    let settings : Settings := { policy := { durations := [], tags := [], routes := [] } }
    let route : Route := ⟨"app/api/users/route.ts"⟩
    let text := ("import \x7b NextResponse \x7d from 'next/server'\n" ++
      "export async function GET() \x7b\n" ++
      "  const \x7b data \x7d = await supabase.from('users').select('*')\n\x7d\n").toList
    settings.violation? = none ∧ ∃ codemod new, ofSettings settings = .ok codemod ∧
      let chosen := (codemod.withStrategy .layered).withWrapping true
      (chosen.run route text).content = some new ∧ (chosen.run route text).result = .wrapped ∧
        (chosen.run route new).content = none ∧
          (chosen.run route new).result = .alreadyCached := by
  intro settings route text
  have hvalid : settings.violation? = none := by decide +kernel
  refine ⟨hvalid, ?_⟩
  obtain ⟨codemod, hok, hrun⟩ := run_idempotent hvalid (by
    intro required hmem
    rcases List.mem_cons.mp hmem with rfl | hmem
    · exact Import.plainSpecifier_of_all (by decide)
    · obtain rfl := List.mem_singleton.mp hmem
      exact Import.plainSpecifier_of_all (by decide))
  have hfirst : (match ofSettings settings with
      | .error _ => false
      | .ok codemod =>
        let outcome := ((codemod.withStrategy .layered).withWrapping true).run route text
        outcome.content.isSome && outcome.result == .wrapped) = true := by decide +kernel
  rw [hok] at hfirst
  dsimp only at hfirst
  rw [Bool.and_eq_true, Option.isSome_iff_exists, beq_iff_eq] at hfirst
  obtain ⟨⟨new, hnew⟩, hwrapped⟩ := hfirst
  obtain ⟨hnone, hcached⟩ := hrun _ _ _ _ _ hnew
  exact ⟨codemod, new, hok, hnew, hwrapped, hnone, hcached hwrapped⟩

end CachedRoutes.Codemod
