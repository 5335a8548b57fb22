import CachedRoutes.Proofs.Codemod.Label
import CachedRoutes.Proofs.Import.Listed

/-!
# Are the names of a wrapped query declared?

A wrapped query uses the caching function and the tags. Whether a file has them is decided by looking
for their names in the text, wherever they stand.

* **Nothing is missing** (`missing_of_wrapped`): a query is wrapped only if the imported text has the
  names of all needed imports.
* **New names are listed** (`wrapped_symbols_listed`): a name that the file did not have is an item of
  a brace list, and it is in code if the closing brace of that list is.
* **Old names are not looked at.** `wrapped_without_declaration` has queries that are wrapped although
  the names stand only in a comment, in quoted text or inside of longer names.
-/

namespace CachedRoutes.Codemod

/-- A query is wrapped only if no import is missing then. -/
lemma missing_of_wrapped {codemod : Codemod} {route : Route} {text : List Char}
    (h : (codemod.run route text).result = .wrapped) :
    Import.missing codemod.imports (Import.ensure codemod.imports text).text = [] := by
  cases hobstacle : Eligibility.obstacle? codemod.eligibility codemod.wrapping.wrapper route text with
  | some obstacle =>
    rw [(run_of_obstacle?_eq_some hobstacle).2] at h
    cases obstacle <;> simp [Result.ofObstacle] at h
  | none =>
    rw [(run_eq_edit hobstacle).1] at h
    rcases codemod.edit_cases route (codemod.catalog.resolve route) text
        (Import.ensure codemod.imports text) with
      ⟨-, -, hcomplete, -⟩ | ⟨hlabel, -⟩ | ⟨hlabel, -⟩ | ⟨hlabel, -⟩
    · exact hcomplete
    · simp [hlabel] at h
    · simp [hlabel] at h
    · simp [hlabel] at h

/-- **The names of a wrapped query.** Checked settings have a codemod. Under every strategy, with
wrapping on or off, for every file whose query is wrapped: the imported text has the symbols of all
needed imports. A symbol that the file itself does not have is an item of a brace list there, or, if
there is no anchor, it may be a part of another needed symbol that is one. The item is a name of its
own in code, outside of all comments and quoted texts, exactly if the closing brace of its list is
code. -/
theorem wrapped_symbols_listed {settings : Settings} (h : settings.violation? = none) :
    ∃ codemod, ofSettings settings = .ok codemod ∧
      ∀ (strategy : Strategy) (enabled : Bool) (route : Route) (text : List Char),
        let chosen := (codemod.withStrategy strategy).withWrapping enabled
        let imported := (Import.ensure chosen.imports text).text
        (chosen.run route text).result = .wrapped →
          ∀ required ∈ settings.imports.required,
            required.symbol.toList <:+: imported ∧
            (¬ required.symbol.toList <:+: text →
              ∃ declared ∈ settings.imports.required,
                required.symbol.toList <:+: declared.symbol.toList ∧
                (declared = required ∨ Import.hasAnchor settings.imports imported = false) ∧
                ∃ left names closed,
                  Import.Listed declared.symbol.toList imported left names closed ∧
                  (Code.InCodeAt declared.symbol.toList imported (left.length + 1) ↔
                    ∀ span ∈ Code.spans imported, span.covers
                      (left ++ Import.spaced (declared.symbol.toList :: names)).length = false)) := by
  obtain ⟨codemod, hok, himports, -⟩ := ofSettings_eq_ok h
  refine ⟨codemod, hok, ?_⟩
  intro strategy enabled route text chosen imported hwrapped required hmem
  have hchosen : chosen.imports = settings.imports := himports
  have hsymbols : ∀ required ∈ settings.imports.required, Code.IsName required.symbol.toList :=
    fun _ hmem => Settings.isName_symbol h hmem
  have himported : imported = (Import.ensure settings.imports text).text := by rw [← hchosen]
  have hin : required.symbol.toList <:+: imported := by
    have hmissing := missing_of_wrapped hwrapped
    rw [hchosen, Import.missing, List.filter_eq_nil_iff] at hmissing
    have hfound := hmissing required hmem
    rw [Bool.not_eq_true', Bool.not_eq_false, Text.contains_iff] at hfound
    rw [himported]
    exact hfound
  refine ⟨hin, ?_⟩
  intro habsent
  rw [himported] at hin ⊢
  obtain ⟨declared, hdeclared, hpart, hwhich, left, names, closed, hlisted⟩ :=
    Import.exists_listed hsymbols hmem habsent hin
  exact ⟨declared, hdeclared, hpart, hwhich, left, names, closed, hlisted,
    hlisted.in_code_iff (hsymbols declared hdeclared)⟩

/-- With the default settings and no policy tables, a query is wrapped in a file that has one of the
names in a comment and does not have the other one. -/
theorem wrapped_symbols_listed_users :
    let settings : Settings := { policy := { durations := [], tags := [], routes := [] } }
    let route : Route := ⟨"app/api/users/route.ts"⟩
    let text := "import a from 'next/server' // CACHE_TAGS\nexport function GET() \x7b\n".toList
      ++ "const \x7b data \x7d = await supabase.from('a').select()\n\x7d\n".toList
    settings.violation? = none ∧ ∃ codemod, ofSettings settings = .ok codemod ∧
      let chosen := (codemod.withStrategy .layered).withWrapping true
      let imported := (Import.ensure chosen.imports text).text
      (chosen.run route text).result = .wrapped ∧ "CACHE_TAGS".toList <:+: imported ∧
        ¬ "unstable_cache".toList <:+: text ∧
        ∃ left names closed, Import.Listed "unstable_cache".toList imported left names closed := by
  intro settings route text
  have hvalid : settings.violation? = none := by decide +kernel
  refine ⟨hvalid, ?_⟩
  obtain ⟨codemod, hok, hwrapped⟩ := wrapped_symbols_listed hvalid
  have hfirst : (match ofSettings settings with
      | .error _ => false
      | .ok codemod =>
        let chosen := (codemod.withStrategy .layered).withWrapping true
        (chosen.run route text).result == .wrapped
          && Import.hasAnchor settings.imports (Import.ensure chosen.imports text).text
          && !Text.contains "unstable_cache".toList text) = true := by
    rw [show text = _ ++ _ from congrArg₂ (· ++ ·) String.toList_ofList String.toList_ofList]
    decide +kernel
  rw [hok] at hfirst
  dsimp only at hfirst
  rw [Bool.and_eq_true, Bool.and_eq_true, beq_iff_eq, Bool.not_eq_true', Bool.eq_false_iff, ne_eq,
    Text.contains_iff] at hfirst
  obtain ⟨⟨hresult, hanchor⟩, habsent⟩ := hfirst
  have hall := hwrapped .layered true route text hresult
  obtain ⟨htags, -⟩ := hall ⟨"CACHE_TAGS", "@/lib/cache"⟩ (by simp [settings])
  obtain ⟨-, hlisted⟩ := hall ⟨"unstable_cache", "next/cache"⟩ (by simp [settings])
  obtain ⟨declared, -, -, hwhich, left, names, closed, hitem, -⟩ := hlisted habsent
  obtain rfl := hwhich.resolve_right (by rw [hanchor]; simp)
  exact ⟨codemod, hok, hresult, htags, habsent, left, names, closed, hitem⟩

/-- **Queries that are wrapped although nothing declares the names.** With the default settings and no
policy tables, the names stand in a comment, in quoted text, or inside of longer names. -/
theorem wrapped_without_declaration :
    let settings : Settings := { policy := { durations := [], tags := [], routes := [] } }
    let route : Route := ⟨"app/api/users/route.ts"⟩
    let handler := "export function GET() \x7b\n".toList
      ++ "const \x7b data \x7d = await supabase.from('a').select()\n\x7d\n".toList
    let leads := ["// unstable_cache CACHE_TAGS\n".toList, "a('unstable_cache CACHE_TAGS')\n".toList,
      "a(an_unstable_cache, CACHE_TAGS_)\n".toList]
    settings.violation? = none ∧ ∃ codemod, ofSettings settings = .ok codemod ∧
      ∀ lead ∈ leads, let text := lead ++ handler
        (codemod.run route text).result = .wrapped ∧
          ∀ required ∈ settings.imports.required,
            ¬ ∃ position, Code.InCodeAt required.symbol.toList
              (Import.ensure codemod.imports text).text position := by
  intro settings route handler leads
  have hvalid : settings.violation? = none := by decide +kernel
  obtain ⟨codemod, hok, -, -⟩ := ofSettings_eq_ok hvalid
  refine ⟨hvalid, codemod, hok, ?_⟩
  have hleads : (match ofSettings settings with
      | .error _ => false
      | .ok codemod => leads.all fun lead =>
        (codemod.run route (lead ++ handler)).result == .wrapped
          && settings.imports.required.all fun required => !Code.standsInCode required.symbol.toList
            (Import.ensure codemod.imports (lead ++ handler)).text) = true := by
    rw [show handler = _ ++ _ from congrArg₂ (· ++ ·) String.toList_ofList String.toList_ofList]
    decide +kernel
  rw [hok] at hleads
  dsimp only at hleads
  intro lead hlead text
  have hboth := List.all_eq_true.mp hleads lead hlead
  rw [Bool.and_eq_true, beq_iff_eq, List.all_eq_true] at hboth
  refine ⟨hboth.1, ?_⟩
  intro required hmem
  rw [← Code.standsInCode_iff (Settings.isName_symbol hvalid hmem).ne_nil]
  have hnone := hboth.2 required hmem
  rw [Bool.not_eq_true'] at hnone
  rw [hnone]
  exact Bool.false_ne_true

end CachedRoutes.Codemod
