import CachedRoutes.Proofs.Codemod.Idempotence
import CachedRoutes.Proofs.Import.Calls

/-!
# What the result of a run says about the file

A run ends with a result and, if there is any, with new text. The two are settled by different
branches. Here is when the first tells about the second.

* **All endings** (`edit_cases`): what the import and wrap stages can come to, and when.
* **Half a run** (`StopsHalfway`): the imports were changed, and then the run stopped because one of
  them is still missing, or because the new text seems to be cached. Such a run changes the file and
  reports no success (`StopsHalfway.outcome`). `changed_without_success` has a file for each reason.
* **All runs** (`changed_iff`): a file is changed exactly by success and by half a run, so the result
  tells the truth exactly if the run does not stop halfway (`result_tells_change_iff`).
-/

namespace CachedRoutes.Codemod

/-! ## All endings -/

/-- With nothing but declarations added, the label says whether any were. -/
lemma importsOnly_cases (text : List Char) (ensured : Import.Ensured) :
    (importsOnly text ensured).text = ensured.text ∧
      (ensured.text ≠ text ∧ (importsOnly text ensured).result = .importsAdded ∨
        ensured.text = text ∧ (importsOnly text ensured).result = .needsManualReview) := by
  unfold importsOnly
  by_cases hsame : ensured.text = text
  · simp [hsame]
  · simp [hsame]

/-- The wrap stage wraps the query, or finds the text cached, or leaves it as the imports are. -/
lemma wrapStage_cases (codemod : Codemod) (route : Route) (policy : Policy) (text : List Char)
    (ensured : Import.Ensured) :
    let stage := codemod.wrapStage route policy text ensured
    let cached := Eligibility.isCached codemod.wrapping.wrapper ensured.text
    (∃ query, Query.wrap codemod.wrapping route policy ensured.text = .wrapped query stage.text ∧
      stage.result = .wrapped ∧ cached = false) ∨
    (stage.result = .alreadyCached ∧ stage.text = ensured.text ∧ cached = true) ∨
    (cached = false ∧ stage.text = ensured.text ∧
      (ensured.text ≠ text ∧ stage.result = .importsAdded ∨
        ensured.text = text ∧ stage.result = .needsManualReview)) := by
  intro stage cached
  have hcached : Query.wrap codemod.wrapping route policy ensured.text = .alreadyWrapped ↔
      cached = true := Query.wrap_eq_alreadyWrapped_iff
  have hstage : stage = codemod.wrapStage route policy text ensured := rfl
  unfold wrapStage at hstage
  cases hwrap : Query.wrap codemod.wrapping route policy ensured.text with
  | wrapped query new =>
    rw [hwrap] at hstage hcached
    rw [hstage]
    exact .inl ⟨query, rfl, rfl, by simpa using hcached⟩
  | alreadyWrapped =>
    rw [hwrap] at hstage
    rw [hstage]
    exact .inr (.inl ⟨rfl, rfl, hcached.mp hwrap⟩)
  | abstained why =>
    rw [hwrap] at hstage hcached
    rw [hstage]
    refine .inr (.inr ⟨by simpa using hcached, ?_⟩)
    by_cases hsame : ensured.text = text
    · simp [hsame]
    · simp [hsame]

/-- What the stages behind the policy come to, in four cases. -/
lemma edit_cases (codemod : Codemod) (route : Route) (policy : Policy) (text : List Char)
    (ensured : Import.Ensured) :
    let edit := codemod.edit route policy text ensured
    let complete := Import.missing codemod.imports ensured.text = []
    let cached := Eligibility.isCached codemod.wrapping.wrapper ensured.text
    -- the query is wrapped
    (edit.result = .wrapped ∧ codemod.wrappedText? route policy ensured.text = some edit.text ∧
      complete ∧ cached = false) ∨
    -- the imports are added, and the query is not to be wrapped or cannot be
    (edit.result = .importsAdded ∧ edit.text = ensured.text ∧ ensured.text ≠ text ∧
      (codemod.wrapping.enabled = true → complete ∧ cached = false)) ∨
    -- there was nothing to add, or an import is still missing
    (edit.result = .needsManualReview ∧ edit.text = ensured.text ∧
      (ensured.text = text ∨ codemod.wrapping.enabled = true ∧ ¬ complete)) ∨
    -- the text seems to be cached
    (edit.result = .alreadyCached ∧ edit.text = ensured.text ∧
      codemod.wrapping.enabled = true ∧ cached = true) := by
  intro edit complete cached
  have hedit : edit = codemod.edit route policy text ensured := rfl
  unfold Codemod.edit at hedit
  by_cases henabled : codemod.wrapping.enabled = true
  · by_cases hcomplete : complete
    · have hmissing : Import.missing codemod.imports ensured.text = [] := hcomplete
      simp only [henabled, hmissing, Bool.not_true, Bool.false_eq_true, if_false] at hedit
      rw [hedit]
      rcases codemod.wrapStage_cases route policy text ensured with
        ⟨query, hwrap, hresult, hcached⟩ | ⟨hresult, htext, hcached⟩ | ⟨hcached, htext, hrest⟩
      · have hnew : codemod.wrappedText? route policy ensured.text
            = some (codemod.wrapStage route policy text ensured).text := by
          unfold wrappedText?
          rw [hmissing, hwrap]
          simp [henabled]
        exact .inl ⟨hresult, hnew, hcomplete, hcached⟩
      · exact .inr (.inr (.inr ⟨hresult, htext, henabled, hcached⟩))
      · rcases hrest with ⟨hnew, hresult⟩ | ⟨hsame, hresult⟩
        · exact .inr (.inl ⟨hresult, htext, hnew, fun _ => ⟨hcomplete, hcached⟩⟩)
        · exact .inr (.inr (.inl ⟨hresult, htext, .inl hsame⟩))
    · obtain ⟨required, rest, hmissing⟩ := List.exists_cons_of_ne_nil hcomplete
      simp only [henabled, hmissing, Bool.not_true, Bool.false_eq_true, if_false] at hedit
      rw [hedit]
      exact .inr (.inr (.inl ⟨rfl, rfl, .inr ⟨henabled, hcomplete⟩⟩))
  · simp only [henabled, Bool.not_false, if_true] at hedit
    rw [hedit]
    obtain ⟨htext, ⟨hnew, hresult⟩ | ⟨hsame, hresult⟩⟩ := importsOnly_cases text ensured
    · exact .inr (.inl ⟨hresult, htext, hnew, fun h => absurd h henabled⟩)
    · exact .inr (.inr (.inl ⟨hresult, htext, .inl hsame⟩))

/-! ## Half a run -/

/-- The run changes the imports of a file and then stops: one of them is still missing, or the new
text seems to call the caching function. -/
structure StopsHalfway (codemod : Codemod) (route : Route) (text : List Char) : Prop where
  eligible : Eligibility.obstacle? codemod.eligibility codemod.wrapping.wrapper route text = none
  enabled : codemod.wrapping.enabled = true
  imported : (Import.ensure codemod.imports text).text ≠ text
  stopped : Import.missing codemod.imports (Import.ensure codemod.imports text).text ≠ [] ∨
    Eligibility.isCached codemod.wrapping.wrapper (Import.ensure codemod.imports text).text = true

section Runs

variable {codemod : Codemod} {route : Route} {text : List Char}

/-- A run that nothing stands in the way of has the result of its stages, and their text if it is
new. -/
lemma run_eq_edit
    (h : Eligibility.obstacle? codemod.eligibility codemod.wrapping.wrapper route text = none) :
    let edit := codemod.edit route (codemod.catalog.resolve route) text
      (Import.ensure codemod.imports text)
    (codemod.run route text).result = edit.result ∧
      (codemod.run route text).content = if edit.text = text then none else some edit.text := by
  unfold run
  rw [h]
  exact ⟨rfl, rfl⟩

/-- **Half a run** changes the file, and asks for a review or says that the file was cached. -/
lemma StopsHalfway.outcome (h : codemod.StopsHalfway route text) :
    let imported := (Import.ensure codemod.imports text).text
    (codemod.run route text).content = some imported ∧
      (Import.missing codemod.imports imported ≠ [] ∧
          (codemod.run route text).result = .needsManualReview ∨
        Eligibility.isCached codemod.wrapping.wrapper imported = true ∧
          (codemod.run route text).result = .alreadyCached) := by
  intro imported
  have hstopped : ¬ (Import.missing codemod.imports imported = [] ∧
      Eligibility.isCached codemod.wrapping.wrapper imported = false) := by
    rintro ⟨hcomplete, hcached⟩
    rcases h.stopped with hmissing | hcalls
    · exact hmissing hcomplete
    · rw [hcached] at hcalls
      exact Bool.noConfusion hcalls
  obtain ⟨hresult, hcontent⟩ := run_eq_edit h.eligible
  rw [hresult, hcontent]
  rcases codemod.edit_cases route (codemod.catalog.resolve route) text
      (Import.ensure codemod.imports text) with
    ⟨-, -, hcomplete, hcached⟩ | ⟨-, -, -, hdone⟩ | ⟨hreview, htext, hwhy⟩ |
      ⟨hskip, htext, -, hcached⟩
  · exact absurd ⟨hcomplete, hcached⟩ hstopped
  · exact absurd (hdone h.enabled) hstopped
  · rw [htext, if_neg h.imported]
    exact ⟨rfl, .inl ⟨(hwhy.resolve_left h.imported).2, hreview⟩⟩
  · rw [htext, if_neg h.imported]
    exact ⟨rfl, .inr ⟨hcached, hskip⟩⟩

/-- A wrapped text differs from the text of the file, which does not call the caching function. -/
lemma wrappedText?_ne {policy : Policy} {imported new : List Char}
    (h : Eligibility.obstacle? codemod.eligibility codemod.wrapping.wrapper route text = none)
    (hnew : codemod.wrappedText? route policy imported = some new) : new ≠ text := by
  obtain ⟨query, -, rfl⟩ := wrappedText?_eq_some hnew
  obtain ⟨-, -, hcached⟩ := obstacle?_eq_none_iff.mp h
  have hcalls := Query.callsFunction_wrapText codemod.wrapping policy route.parameters imported query
  intro hsame
  rw [hsame] at hcalls
  have hcontra : Eligibility.isCached codemod.wrapping.wrapper text = true := hcalls
  rw [hcached] at hcontra
  exact Bool.noConfusion hcontra

/-- **A file is changed by success and by half a run, and by nothing else.** -/
lemma changed_iff : (codemod.run route text).changed = true ↔
    (codemod.run route text).result.isSuccess = true ∨ codemod.StopsHalfway route text := by
  cases hobstacle : Eligibility.obstacle? codemod.eligibility codemod.wrapping.wrapper route text with
  | some obstacle =>
    obtain ⟨hcontent, hresult⟩ := run_of_obstacle?_eq_some hobstacle
    have hhalf : ¬ codemod.StopsHalfway route text := by
      intro h
      rw [h.eligible] at hobstacle
      simp at hobstacle
    rw [Outcome.changed, hcontent, hresult]
    cases obstacle <;> simp [Result.ofObstacle, Result.isSuccess, hhalf]
  | none =>
    obtain ⟨hresult, hcontent⟩ := run_eq_edit hobstacle
    rw [Outcome.changed, hresult, hcontent]
    rcases codemod.edit_cases route (codemod.catalog.resolve route) text
        (Import.ensure codemod.imports text) with
      ⟨hlabel, hnew, -, -⟩ | ⟨hlabel, htext, hnew, -⟩ | ⟨hlabel, htext, hwhy⟩ |
        ⟨hlabel, htext, henabled, hcached⟩
    · rw [hlabel, Option.isSome_ite']
      exact ⟨fun _ => .inl rfl, fun _ => wrappedText?_ne hobstacle hnew⟩
    · rw [hlabel, htext, Option.isSome_ite']
      exact ⟨fun _ => .inl rfl, fun _ => hnew⟩
    · have hhalf : codemod.StopsHalfway route text ↔
          (Import.ensure codemod.imports text).text ≠ text := by
        refine ⟨fun h => h.imported, fun hnew => ?_⟩
        obtain ⟨henabled, hmissing⟩ := hwhy.resolve_left hnew
        exact ⟨hobstacle, henabled, hnew, .inl hmissing⟩
      rw [hlabel, htext, Option.isSome_ite', hhalf]
      simp [Result.isSuccess]
    · have hhalf : codemod.StopsHalfway route text ↔
          (Import.ensure codemod.imports text).text ≠ text :=
        ⟨fun h => h.imported, fun hnew => ⟨hobstacle, henabled, hnew, .inr hcached⟩⟩
      rw [hlabel, htext, Option.isSome_ite', hhalf]
      simp [Result.isSuccess]

/-- Without parentheses in module specifiers, a file that is reported as a skip is left alone. -/
lemma not_changed_of_isSkip
    (hwrapper : Code.IsName codemod.wrapping.wrapper.toList)
    (hsymbols : ∀ required ∈ codemod.imports.required, Code.IsName required.symbol.toList)
    (hparen : ∀ required ∈ codemod.imports.required, '(' ∉ required.specifier.toList)
    (hskip : (codemod.run route text).result.isSkip = true) :
    (codemod.run route text).changed = false := by
  rw [Bool.eq_false_iff]
  intro hchanged
  rcases changed_iff.mp hchanged with hsuccess | hhalf
  · cases hresult : (codemod.run route text).result <;>
      simp [hresult, Result.isSuccess, Result.isSkip] at hsuccess hskip
  · obtain ⟨-, -, hcached⟩ := obstacle?_eq_none_iff.mp hhalf.eligible
    rcases hhalf.outcome.2 with ⟨-, hresult⟩ | ⟨hnew, -⟩
    · rw [hresult] at hskip
      exact Bool.noConfusion hskip
    · -- the call was there before the imports
      have hcalls : Eligibility.isCached codemod.wrapping.wrapper
          (Import.ensure codemod.imports text).text
            = Eligibility.isCached codemod.wrapping.wrapper text :=
        Import.callsFunction_ensure hwrapper hsymbols hparen text
      rw [hcalls, hcached] at hnew
      exact Bool.noConfusion hnew

end Runs

/-! ## Checked settings -/

/-- **When the result tells whether the file changes.** Checked settings have a codemod. Under every
strategy, with wrapping on or off, for every file: the file is changed exactly in case of success, if
and only if the run does not stop halfway. Success always changes the file. A run that stops halfway
leaves the imported text; it asks for a review if an import is missing, and otherwise says that the
file is cached. If no module specifier has a parenthesis, a file that is excluded, has no handler or
is said to be cached is left alone. -/
theorem result_tells_change_iff {settings : Settings} (h : settings.violation? = none) :
    ∃ codemod, ofSettings settings = .ok codemod ∧
      ∀ (strategy : Strategy) (enabled : Bool) (route : Route) (text : List Char),
        let chosen := (codemod.withStrategy strategy).withWrapping enabled
        let outcome := chosen.run route text
        let imported := (Import.ensure chosen.imports text).text
        ((outcome.changed = true ↔ outcome.result.isSuccess = true) ↔
          ¬ chosen.StopsHalfway route text) ∧
        (outcome.result.isSuccess = true → outcome.changed = true) ∧
        (chosen.StopsHalfway route text → outcome.content = some imported ∧
          (Import.missing chosen.imports imported ≠ [] ∧ outcome.result = .needsManualReview ∨
            Eligibility.isCached chosen.wrapping.wrapper imported = true ∧
              outcome.result = .alreadyCached)) ∧
        ((∀ required ∈ settings.imports.required, '(' ∉ required.specifier.toList) →
          outcome.result.isSkip = true → outcome.changed = false) := by
  obtain ⟨codemod, hok, himports, hwrapping⟩ := ofSettings_eq_ok h
  refine ⟨codemod, hok, ?_⟩
  intro strategy enabled route text chosen outcome imported
  have hchanged : outcome.changed = true ↔
      outcome.result.isSuccess = true ∨ chosen.StopsHalfway route text := changed_iff
  refine ⟨?_, fun hsuccess => hchanged.mpr (.inl hsuccess), StopsHalfway.outcome, ?_⟩
  · constructor
    · intro htells hhalf
      have hsuccess := htells.mp (hchanged.mpr (.inr hhalf))
      rcases hhalf.outcome.2 with ⟨-, hresult⟩ | ⟨-, hresult⟩
      · rw [show outcome.result = _ from hresult] at hsuccess
        exact Bool.noConfusion hsuccess
      · rw [show outcome.result = _ from hresult] at hsuccess
        exact Bool.noConfusion hsuccess
    · intro hhalf
      rw [hchanged]
      exact ⟨fun hor => hor.resolve_right hhalf, .inl⟩
  · intro hparen hskip
    have hchosen : chosen.imports = settings.imports := himports
    have hwrapper : chosen.wrapping.wrapper = settings.wrap.wrapper := by rw [← hwrapping]; rfl
    have hwrap := Settings.Wrapping.violation?_eq_none_iff.mp (Settings.violation?_eq_none h).1
    refine not_changed_of_isSkip ?_ ?_ ?_ hskip
    · rw [hwrapper]
      exact Code.isName_of_isIdentifier hwrap.1
    · rw [hchosen]
      exact fun required hmem => Settings.isName_symbol h hmem
    · rw [hchosen]
      exact hparen

/-- With the default settings and no policy tables, a route without the needed imports is changed,
and the run does not stop halfway. -/
theorem result_tells_change_iff_users :
    let settings : Settings := { policy := { durations := [], tags := [], routes := [] } }
    let route : Route := ⟨"app/api/users/route.ts"⟩
    let text := "import a from 'next/server'\nexport function GET() \x7b\x7d\n".toList
    settings.violation? = none ∧ ∃ codemod, ofSettings settings = .ok codemod ∧
      let chosen := (codemod.withStrategy .layered).withWrapping true
      (chosen.run route text).result.isSuccess = true ∧ (chosen.run route text).changed = true ∧
        ¬ chosen.StopsHalfway route text := by
  intro settings route text
  have hvalid : settings.violation? = none := by decide +kernel
  refine ⟨hvalid, ?_⟩
  obtain ⟨codemod, hok, htells⟩ := result_tells_change_iff hvalid
  have hfirst : (match ofSettings settings with
      | .error _ => false
      | .ok codemod =>
        let chosen := (codemod.withStrategy .layered).withWrapping true
        (chosen.run route text).result.isSuccess) = true := by
    rw [show text = _ from String.toList_ofList]
    decide +kernel
  rw [hok] at hfirst
  obtain ⟨hiff, hsuccess, -, -⟩ := htells .layered true route text
  have hchanged := hsuccess hfirst
  exact ⟨codemod, hok, hfirst, hchanged, hiff.mp (iff_of_true hchanged hfirst)⟩

/-- **Files that are changed without success.** The first imports from one of the two needed modules
and has no anchor for the other: the run extends the import and asks for a review. For the second one,
a needed module has a specifier that looks like a call of the caching function: the run adds the import
and says that the file is cached. -/
theorem changed_without_success :
    let tables : Settings.Policies := { durations := [], tags := [], routes := [] }
    let call : Settings.Imports := { required := [⟨"unstable_cache", "a unstable_cache("⟩] }
    let route : Route := ⟨"app/api/users/route.ts"⟩
    (Settings.violation? { policy := tables } = none ∧
      ∃ codemod, ofSettings { policy := tables } = .ok codemod ∧
        let outcome := (codemod.withWrapping true).run route
          "import \x7b revalidateTag \x7d from 'next/cache'\nexport function GET() \x7b\x7d\n".toList
        outcome.result = .needsManualReview ∧ outcome.content = some
          ("import \x7b revalidateTag, unstable_cache \x7d from 'next/cache'\n".toList
            ++ "export function GET() \x7b\x7d\n".toList)) ∧
    (Settings.violation? { policy := tables, imports := call } = none ∧
      ∃ codemod, ofSettings { policy := tables, imports := call } = .ok codemod ∧
        let outcome := (codemod.withWrapping true).run route
          "import a from 'next/server'\nexport function GET() \x7b\x7d\n".toList
        outcome.result = .alreadyCached ∧ outcome.content = some
          ("import a from 'next/server'\nimport \x7b unstable_cache \x7d from 'a unstable_cache('\n".toList
            ++ "export function GET() \x7b\x7d\n".toList)) := by
  intro tables call route
  refine ⟨⟨by decide +kernel, ?_⟩, ⟨by decide +kernel, ?_⟩⟩
  · refine ⟨_, rfl, ?_⟩
    rw [String.toList_ofList, String.toList_ofList, String.toList_ofList]
    decide +kernel
  · refine ⟨_, rfl, ?_⟩
    rw [String.toList_ofList, String.toList_ofList, String.toList_ofList]
    decide +kernel

end CachedRoutes.Codemod
