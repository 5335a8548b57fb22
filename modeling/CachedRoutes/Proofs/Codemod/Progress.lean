import CachedRoutes.Proofs.Codemod.Idempotence

/-!
# Imports now, the query later

A project can add the imports to its files first and have the queries wrapped in a later run. Here
is why nothing is lost by that.

* **One run** (`rewrite_of_obstacle?_eq_none`): without an obstacle a file ends up with its imported
  text, or with that text wrapped, and only the imported text decides which.
* **Runs for the imports** (`importRuns_cases`): however many there are, they leave the text alone, or
  they leave the imported text of a file that may be changed.
* **The run for the query** (`full_run_of_imported`): it treats a text and its imported text alike,
  also if the imports alone make it look cached.
* **Together** (`staged_run_eq`), for checked settings with plain module specifiers.
-/

namespace CachedRoutes.Codemod

/-- The text of a file after a run on it. -/
def rewrite (codemod : Codemod) (route : Route) (text : List Char) : List Char :=
  (codemod.run route text).content.getD text

/-- The codemod under a strategy, with wrapping switched off. -/
def forImports (codemod : Codemod) (strategy : Strategy) : Codemod :=
  (codemod.withStrategy strategy).withWrapping false

/-- The codemod under a strategy, with wrapping switched on. -/
def forQueries (codemod : Codemod) (strategy : Strategy) : Codemod :=
  (codemod.withStrategy strategy).withWrapping true

/-- The text of a file after one run for its imports under each of the strategies, in order. -/
def importRuns (codemod : Codemod) (route : Route) (strategies : List Strategy)
    (text : List Char) : List Char :=
  strategies.foldl (fun text strategy => (codemod.forImports strategy).rewrite route text) text

/-! ## One run -/

section Run

variable {codemod : Codemod} {route : Route} {text : List Char}

/-- A file with an obstacle stays as it is. -/
lemma rewrite_of_obstacle?_eq_some {obstacle : Eligibility.Obstacle}
    (h : Eligibility.obstacle? codemod.eligibility codemod.wrapping.wrapper route text
      = some obstacle) : codemod.rewrite route text = text := by
  unfold rewrite
  rw [(run_of_obstacle?_eq_some h).1]
  rfl

/-- Without an obstacle a file ends up with its imported text, wrapped if it comes to that. -/
lemma rewrite_of_obstacle?_eq_none
    (h : Eligibility.obstacle? codemod.eligibility codemod.wrapping.wrapper route text = none) :
    codemod.rewrite route text
      = (codemod.wrappedText? route (codemod.catalog.resolve route)
          (Import.ensure codemod.imports text).text).getD
        (Import.ensure codemod.imports text).text := by
  unfold rewrite
  rw [(run_of_obstacle?_eq_none h).1]
  split
  · rename_i hsame
    rw [Option.getD_none, hsame]
  · rw [Option.getD_some]

/-- With wrapping switched off nothing is wrapped. -/
lemma wrappedText?_of_disabled (h : codemod.wrapping.enabled = false) (policy : Policy) :
    codemod.wrappedText? route policy text = none := by
  unfold wrappedText?
  simp [h]

/-- A text that calls the caching function is not wrapped again. -/
lemma wrappedText?_of_isCached
    (h : Eligibility.isCached codemod.wrapping.wrapper text = true) (policy : Policy) :
    codemod.wrappedText? route policy text = none := by
  have hwrap : Query.wrap codemod.wrapping route policy text = .alreadyWrapped :=
    Query.wrap_eq_alreadyWrapped_iff.mpr h
  unfold wrappedText?
  rw [hwrap]
  split <;> rfl

end Run

/-! ## Runs for the imports -/

/-- What runs for the imports make of a text: they leave it alone, or they leave the imported text of
a file that may be changed. The strategies do not matter. -/
lemma importRuns_cases {codemod : Codemod} (hcodemod : codemod.Writable) (route : Route)
    (strategies : List Strategy) (text : List Char) :
    codemod.importRuns route strategies text = text ∨
      Eligibility.obstacle? codemod.eligibility codemod.wrapping.wrapper route text = none ∧
        codemod.importRuns route strategies text = (Import.ensure codemod.imports text).text := by
  induction strategies generalizing text with
  | nil => exact .inl rfl
  | cons strategy strategies ih =>
    have hcons : codemod.importRuns route (strategy :: strategies) text
        = codemod.importRuns route strategies ((codemod.forImports strategy).rewrite route text) :=
      rfl
    rw [hcons]
    cases hobstacle : Eligibility.obstacle? codemod.eligibility codemod.wrapping.wrapper route
        text with
    | some obstacle =>
      have hfirst : (codemod.forImports strategy).rewrite route text = text :=
        rewrite_of_obstacle?_eq_some hobstacle
      rw [hfirst, ← hobstacle]
      exact ih text
    | none =>
      have hfirst : (codemod.forImports strategy).rewrite route text
          = (Import.ensure codemod.imports text).text := by
        have hrun := @rewrite_of_obstacle?_eq_none (codemod.forImports strategy) route text hobstacle
        rw [wrappedText?_of_disabled rfl] at hrun
        exact hrun
      refine .inr ⟨rfl, ?_⟩
      rw [hfirst]
      -- from here on every run finds the imports settled
      rcases ih (Import.ensure codemod.imports text).text with hsame | ⟨-, hsame⟩
      · exact hsame
      · rw [hsame, Import.ensure_ensure_text hcodemod.imports]

/-! ## The run for the query -/

/-- **A text and its imported text come to the same.** The imported text may have a new obstacle, a
call of the caching function; then the first text is not wrapped either. -/
lemma full_run_of_imported {codemod : Codemod} (hcodemod : codemod.Writable) {route : Route}
    {text : List Char}
    (h : Eligibility.obstacle? codemod.eligibility codemod.wrapping.wrapper route text = none) :
    codemod.rewrite route (Import.ensure codemod.imports text).text = codemod.rewrite route text ∧
      ((codemod.run route (Import.ensure codemod.imports text).text).result = .wrapped ↔
        (codemod.run route text).result = .wrapped) := by
  obtain ⟨hexcluded, hget, -⟩ := obstacle?_eq_none_iff.mp h
  rw [rewrite_of_obstacle?_eq_none h, (run_of_obstacle?_eq_none h).2]
  have hget' : Eligibility.hasGetHandler (Import.ensure codemod.imports text).text = true :=
    Import.hasGetHandler_ensure hget
  have hsettled := Import.ensure_ensure_text hcodemod.imports text
  by_cases hcached : Eligibility.isCached codemod.wrapping.wrapper
      (Import.ensure codemod.imports text).text = true
  · have hobstacle : Eligibility.obstacle? codemod.eligibility codemod.wrapping.wrapper route
        (Import.ensure codemod.imports text).text = some .alreadyCached := by
      simp [Eligibility.obstacle?, hexcluded, hget', hcached]
    rw [wrappedText?_of_isCached hcached, rewrite_of_obstacle?_eq_some hobstacle,
      (run_of_obstacle?_eq_some hobstacle).2]
    simp [Result.ofObstacle]
  · have hobstacle : Eligibility.obstacle? codemod.eligibility codemod.wrapping.wrapper route
        (Import.ensure codemod.imports text).text = none :=
      obstacle?_eq_none_iff.mpr ⟨hexcluded, hget', Bool.eq_false_iff.mpr hcached⟩
    rw [rewrite_of_obstacle?_eq_none hobstacle, (run_of_obstacle?_eq_none hobstacle).2, hsettled]
    exact ⟨rfl, Iff.rfl⟩

/-- **Imports first, the query later gives the same file.** Checked settings whose needed modules have
no quote and no line feed in their specifiers have a codemod. Run it on a file any number of times
with wrapping switched off, each time under any strategy, and then once with wrapping switched on: the
file ends up with the text that the last run alone would have given it, and the last run wraps the
query exactly if it would have done so alone. -/
theorem staged_run_eq {settings : Settings} (h : settings.violation? = none)
    (hspecifiers : ∀ required ∈ settings.imports.required,
      Import.PlainSpecifier required.specifier.toList) :
    ∃ codemod, ofSettings settings = .ok codemod ∧
      ∀ (strategies : List Strategy) (strategy : Strategy) (route : Route) (text : List Char),
        let full := codemod.forQueries strategy
        let staged := codemod.importRuns route strategies text
        full.rewrite route staged = full.rewrite route text ∧
          ((full.run route staged).result = .wrapped ↔ (full.run route text).result = .wrapped) := by
  obtain ⟨codemod, hok, himports, hwrapping⟩ := ofSettings_eq_ok h
  refine ⟨codemod, hok, ?_⟩
  intro strategies strategy route text full staged
  have hwritable : codemod.Writable :=
    writable_of_settings h hspecifiers himports (by rw [hwrapping])
  rcases importRuns_cases hwritable route strategies text with hsame | ⟨hobstacle, himported⟩
  · have hstaged : staged = text := hsame
    rw [hstaged]
    exact ⟨rfl, Iff.rfl⟩
  · have hstaged : staged = (Import.ensure full.imports text).text := himported
    have hfull : full.Writable := ⟨hwritable.imports, hwritable.clients⟩
    rw [hstaged]
    exact full_run_of_imported hfull hobstacle

/-- With the default settings and no policy tables, two runs for the imports change a route, and a
third one wraps its query as it would have done at first. -/
theorem staged_run_eq_users :
    let settings : Settings := { policy := { durations := [], tags := [], routes := [] } }
    let route : Route := ⟨"app/api/users/route.ts"⟩
    let text := "import a from 'next/server'\nexport function GET() \x7b\n".toList
      ++ "const \x7b data \x7d = await supabase.from('a').select()\n\x7d\n".toList
    settings.violation? = none ∧ ∃ codemod, ofSettings settings = .ok codemod ∧
      let full := codemod.forQueries .layered
      let staged := codemod.importRuns route [.table, .keywords] text
      staged ≠ text ∧ full.rewrite route staged = full.rewrite route text ∧
        (full.run route staged).result = .wrapped := by
  intro settings route text
  have hvalid : settings.violation? = none := by decide +kernel
  refine ⟨hvalid, ?_⟩
  obtain ⟨codemod, hok, hstaged⟩ := staged_run_eq hvalid (by
    intro required hmem
    rcases List.mem_cons.mp hmem with rfl | hmem
    · exact Import.plainSpecifier_of_all (by decide)
    · obtain rfl := List.mem_singleton.mp hmem
      exact Import.plainSpecifier_of_all (by decide))
  have hfirst : (match ofSettings settings with
      | .error _ => false
      | .ok codemod =>
        codemod.importRuns route [.table, .keywords] text != text
          && ((codemod.forQueries .layered).run route text).result == .wrapped) = true := by
    rw [show text = _ ++ _ from congrArg₂ (· ++ ·) String.toList_ofList String.toList_ofList]
    decide +kernel
  rw [hok] at hfirst
  dsimp only at hfirst
  rw [Bool.and_eq_true, bne_iff_ne, beq_iff_eq] at hfirst
  obtain ⟨hsame, hwrapped⟩ := hstaged [.table, .keywords] .layered route text
  exact ⟨codemod, hok, hfirst.1, hsame, hwrapped.mpr hfirst.2⟩

end CachedRoutes.Codemod
