import CachedRoutes.Proofs.Codemod.Label

/-!
# Imports do not decide who is eligible

A run looks for obstacles in the text it is given, and wraps a query in the text that the import
stage makes of it. Were the two texts judged differently, a run could stop at an obstacle of its own
making. They are judged alike, unless a module specifier brings a parenthesis or a line along.

* **Handlers** (`Import.hasGetHandler_ensure_eq`): the stage makes no exported handler and takes none
  away. Brace lists are written anew within their line, and each new line starts with `import`.
* **Obstacles** (`obstacle?_ensure`): so, with the calls of the caching function
  (`Import.callsFunction_ensure`), no obstacle comes or goes.
* **Runs** (`eligible_after_imports`): a run that starts to work on a file does not find it cached in
  the end.
-/

namespace CachedRoutes

namespace Import

open Code (IsName)

/-! ## Handlers -/

/-- Extending a list makes no handler and takes none away. -/
lemma hasGetHandler_extend?_eq {specifier text new : List Char} {symbols : List (List Char)}
    (hsymbols : ∀ symbol ∈ symbols, IsName symbol)
    (h : extend? specifier symbols text = some new) :
    Eligibility.hasGetHandler new = Eligibility.hasGetHandler text := by
  obtain ⟨start, opening, names, closed, hlist, rfl⟩ := extend?_eq_some h
  obtain ⟨front, hfront⟩ := hlist.opening_ends
  have hcut : ∀ list, start ++ opening ++ (list ++ '\x7d' :: closed)
      = front ++ ('\x7b' :: list ++ '\x7d' :: closed) := by
    intro list
    rw [hfront]
    simp
  have hfeed : '\n' ∉ '\x7b' :: names := by simpa using hlist.no_lineFeed
  have hnew : '\n' ∉ extendedList names symbols := (hlist.extended hsymbols).no_lineFeed
  rw [hlist.text_eq, hcut, hcut]
  apply Eligibility.hasGetHandler_replace_eq (by decide) hfeed
  simp [Text.afterLineFeeds_eq_nil hnew]

/-- A line that starts with `import` exports no handler. -/
lemma exportsGet_importLine (quote : Char) (terminated : Bool) (addition : Addition)
    (more : List Char) :
    Eligibility.exportsGet (importLine quote terminated addition ++ more) = false := by
  obtain ⟨rest, hrest⟩ : ∃ rest, importLine quote terminated addition ++ more = 'i' :: rest :=
    ⟨_, rfl⟩
  rw [hrest]
  simp [Eligibility.exportsGet, Eligibility.afterSpaced?, Text.after?, Text.isIndent]

/-- **Inserting lines makes no handler and takes none away.** -/
lemma hasGetHandler_insertAfter_eq {specifier text : List Char} {anchor : Anchor}
    (h : anchor? specifier text = some anchor) {list : List Addition}
    (hsymbols : ∀ addition ∈ list, ∀ symbol ∈ addition.symbols.map String.toList, IsName symbol)
    (hspecifiers : ∀ addition ∈ list, '\n' ∉ addition.specifier.toList) :
    Eligibility.hasGetHandler (insertAfter anchor list text) = Eligibility.hasGetHandler text := by
  have hfeed : ∀ addition ∈ list, '\n' ∉ importLine anchor.quote anchor.terminated addition :=
    fun addition hmem => lineFeed_not_mem_importLine (anchor?_quote h) anchor.terminated
      (hsymbols addition hmem) (hspecifiers addition hmem)
  obtain ⟨a, quote, rest, htext, hnew, hdeclaration, hline⟩ := exists_insertAfter_eq h list
  rw [hnew]
  conv_rhs => rw [htext]
  apply Eligibility.hasGetHandler_replace_eq hdeclaration hline
  intro line hmem
  have hrest : '\n' ∉ rest := fun hin => hline (List.mem_cons_of_mem _ hin)
  rw [Text.afterLineFeeds_append, Text.afterLineFeeds_eq_nil hrest, List.map_nil,
    List.nil_append] at hmem
  obtain ⟨addition, -, more, rfl⟩ := exists_importLine hfeed hmem
  rw [List.append_assoc]
  exact exportsGet_importLine _ _ addition _

section Stage

variable {imports : Settings.Imports}
  (hsymbols : ∀ required ∈ imports.required, IsName required.symbol.toList)
  (hfeed : ∀ required ∈ imports.required, '\n' ∉ required.specifier.toList)
include hsymbols hfeed

/-- **The import stage makes no handler and takes none away.** -/
lemma hasGetHandler_ensure_eq (text : List Char) :
    Eligibility.hasGetHandler (ensure imports text).text = Eligibility.hasGetHandler text := by
  have hnames : ∀ addition ∈ additions imports text,
      ∀ symbol ∈ addition.symbols.map String.toList, IsName symbol :=
    fun _ hmem => isName_of_mem_additions hsymbols hmem
  have hspecifiers : ∀ addition ∈ additions imports text, '\n' ∉ addition.specifier.toList := by
    intro addition hmem
    obtain ⟨required, hrequired, hspecifier⟩ := exists_required_of_mem_additions hmem
    rw [← hspecifier]
    exact hfeed required hrequired
  have hextended : Eligibility.hasGetHandler (extendAll (additions imports text) text).1.text
      = Eligibility.hasGetHandler text := by
    apply extendAll_keeps
      (P := fun new => Eligibility.hasGetHandler new = Eligibility.hasGetHandler text) _ rfl
    intro addition hmem text' new hextend hsame
    rw [hasGetHandler_extend?_eq (hnames addition hmem) hextend, hsame]
  rcases ensure_cases imports text with ⟨-, heq⟩ | ⟨anchor, hanchor, heq⟩ | ⟨-, heq⟩
  · rw [heq, hextended]
  · have hleft := left_subset (additions imports text) text
    rw [heq, hasGetHandler_insertAfter_eq hanchor (fun a ha => hnames a (hleft ha))
      (fun a ha => hspecifiers a (hleft ha)), hextended]
  · rw [heq, hextended]

end Stage

end Import

namespace Codemod

/-! ## Obstacles -/

/-- **No obstacle comes or goes with the imports.** -/
lemma obstacle?_ensure {imports : Settings.Imports} {wrapper : String}
    (hwrapper : Code.IsName wrapper.toList)
    (hsymbols : ∀ required ∈ imports.required, Code.IsName required.symbol.toList)
    (hspecifiers : ∀ required ∈ imports.required,
      '\n' ∉ required.specifier.toList ∧ '(' ∉ required.specifier.toList)
    (eligibility : Settings.Eligibility) (route : Route) (text : List Char) :
    Eligibility.obstacle? eligibility wrapper route (Import.ensure imports text).text
      = Eligibility.obstacle? eligibility wrapper route text := by
  have hget := Import.hasGetHandler_ensure_eq hsymbols (fun r hr => (hspecifiers r hr).1) text
  have hcached := Import.callsFunction_ensure hwrapper hsymbols
    (fun r hr => (hspecifiers r hr).2) text
  unfold Eligibility.obstacle? Eligibility.isCached
  rw [hget, hcached]

/-! ## Runs -/

/-- A run that nothing stands in the way of says that the file is cached only if the imported text
is. -/
lemma isCached_of_run_result {codemod : Codemod} {route : Route} {text : List Char}
    (h : Eligibility.obstacle? codemod.eligibility codemod.wrapping.wrapper route text = none)
    (hresult : (codemod.run route text).result = .alreadyCached) :
    Eligibility.isCached codemod.wrapping.wrapper (Import.ensure codemod.imports text).text
      = true := by
  rw [(run_eq_edit h).1] at hresult
  rcases codemod.edit_cases route (codemod.catalog.resolve route) text
    (Import.ensure codemod.imports text) with
    ⟨hother, -⟩ | ⟨hother, -⟩ | ⟨hother, -⟩ | ⟨-, -, -, hcached⟩
  · rw [hresult] at hother
    simp at hother
  · rw [hresult] at hother
    simp at hother
  · rw [hresult] at hother
    simp at hother
  · exact hcached

/-- **The import stage never changes who is eligible.** Checked settings whose needed modules have no
line feed and no parenthesis in their specifiers have a codemod. Under every strategy, with wrapping
on or off, for every route and text: the text with its imports ensured has the obstacle that the text
has, or none if it has none. If it has none, the wrap stage does not find the imported text wrapped,
whatever the policy, and the run does not say that the file is cached. -/
theorem eligible_after_imports {settings : Settings} (h : settings.violation? = none)
    (hspecifiers : ∀ required ∈ settings.imports.required,
      '\n' ∉ required.specifier.toList ∧ '(' ∉ required.specifier.toList) :
    ∃ codemod, ofSettings settings = .ok codemod ∧
      ∀ (strategy : Strategy) (enabled : Bool) (route : Route) (text : List Char),
        let chosen := (codemod.withStrategy strategy).withWrapping enabled
        let obstacle? := Eligibility.obstacle? chosen.eligibility chosen.wrapping.wrapper route
        let imported := (Import.ensure chosen.imports text).text
        obstacle? imported = obstacle? text ∧
          (obstacle? text = none →
            (∀ policy, Query.wrap chosen.wrapping route policy imported ≠ .alreadyWrapped) ∧
              (chosen.run route text).result ≠ .alreadyCached) := by
  obtain ⟨codemod, hok, himports, hwrapping⟩ := ofSettings_eq_ok h
  refine ⟨codemod, hok, ?_⟩
  intro strategy enabled route text chosen obstacle? imported
  have hchosen : chosen.imports = settings.imports := himports
  have hname : chosen.wrapping.wrapper = settings.wrap.wrapper := by rw [← hwrapping]; rfl
  have hwrap := Settings.Wrapping.violation?_eq_none_iff.mp (Settings.violation?_eq_none h).1
  have hwrapper : Code.IsName chosen.wrapping.wrapper.toList := by
    rw [hname]
    exact Code.isName_of_isIdentifier hwrap.1
  have hsame : obstacle? imported = obstacle? text := by
    apply obstacle?_ensure hwrapper
    · rw [hchosen]
      exact fun required hmem => Settings.isName_symbol h hmem
    · rw [hchosen]
      exact hspecifiers
  refine ⟨hsame, ?_⟩
  intro hnone
  have hcached : Eligibility.isCached chosen.wrapping.wrapper imported = false := by
    rw [hnone] at hsame
    exact (obstacle?_eq_none_iff.mp hsame).2.2
  constructor
  · intro policy hwrapped
    have hcalls : Eligibility.isCached chosen.wrapping.wrapper imported = true :=
      Query.wrap_eq_alreadyWrapped_iff.mp hwrapped
    rw [hcalls] at hcached
    exact Bool.noConfusion hcached
  · intro hresult
    rw [isCached_of_run_result hnone hresult] at hcached
    exact Bool.noConfusion hcached

/-- One module has a list to extend and the other one gets a new line. The text is eligible before and
after. -/
theorem eligible_after_imports_users :
    let settings : Settings := { policy := { durations := [], tags := [], routes := [] } }
    let route : Route := ⟨"app/api/users/route.ts"⟩
    let text := "import \x7b NextResponse \x7d from 'next/server'\n".toList
      ++ "import \x7b revalidateTag \x7d from 'next/cache'\nexport function GET() \x7b\x7d\n".toList
    settings.violation? = none ∧
      (∀ required ∈ settings.imports.required,
        '\n' ∉ required.specifier.toList ∧ '(' ∉ required.specifier.toList) ∧
      ∃ codemod, ofSettings settings = .ok codemod ∧
        let chosen := (codemod.withStrategy .layered).withWrapping true
        let obstacle? := Eligibility.obstacle? chosen.eligibility chosen.wrapping.wrapper route
        let imported := (Import.ensure chosen.imports text).text
        imported ≠ text ∧ obstacle? text = none ∧ obstacle? imported = none ∧
          (chosen.run route text).result ≠ .alreadyCached := by
  intro settings route text
  have hvalid : settings.violation? = none := by decide +kernel
  have hspecifiers : ∀ required ∈ settings.imports.required,
      '\n' ∉ required.specifier.toList ∧ '(' ∉ required.specifier.toList := by decide
  refine ⟨hvalid, hspecifiers, ?_⟩
  obtain ⟨codemod, hok, hrun⟩ := eligible_after_imports hvalid hspecifiers
  obtain ⟨hsame, hnone⟩ := hrun .layered true route text
  have hfirst : (match ofSettings settings with
      | .error _ => false
      | .ok codemod =>
        let chosen := (codemod.withStrategy .layered).withWrapping true
        (Import.ensure chosen.imports text).text != text
          && (Eligibility.obstacle? chosen.eligibility chosen.wrapping.wrapper route text).isNone)
      = true := by
    rw [show text = _ from congrArg₂ (· ++ ·) String.toList_ofList String.toList_ofList]
    decide +kernel
  rw [hok] at hfirst
  dsimp only at hfirst
  rw [Bool.and_eq_true, bne_iff_ne, Option.isNone_iff_eq_none] at hfirst
  exact ⟨codemod, hok, hfirst.1, hfirst.2, hsame.trans hfirst.2, (hnone hfirst.2).2⟩

end Codemod

end CachedRoutes
