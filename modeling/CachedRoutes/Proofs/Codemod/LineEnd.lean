import CachedRoutes.Proofs.Codemod.Label
import CachedRoutes.Proofs.Query.LocalEdit
import Mathlib.Data.List.Chain

/-!
# Line ends through a run

A text whose lines end with a carriage return and a line feed is edited in up to three places, and each
of them writes text of its own. Here is which of them follows the text.

* **Line ends** (`Text.CrlfOnly`): each line feed follows a carriage return. Such texts can be put one
  behind the other, and cut apart everywhere but behind a carriage return.
* **Imports** (`Import.crlfOnly_ensure`): brace lists are rewritten within their line, and new lines get
  the line ends of the text.
* **Wrapping** (`Query.not_crlfOnly_wrapperCall`): the new lines of the call end with a line feed only.
* **Runs** (`Codemod.crlfOnly_iff_not_wrapped`): so a run keeps the line ends exactly if it does not wrap
  the query. `Codemod.wrapped_mixes_line_ends` has a file with both kinds in the end.
-/

namespace CachedRoutes

namespace Text

/-! ## Line ends -/

/-- Each line feed follows a carriage return. The line feed put in front stands for the start of the
text, where nothing precedes. -/
def CrlfOnly (text : List Char) : Prop :=
  ('\n' :: text).IsChain fun before c => c = '\n' → before = '\r'

instance (text : List Char) : Decidable (CrlfOnly text) :=
  inferInstanceAs (Decidable (List.IsChain _ _))

/-- Wherever the text is cut at a line feed, a carriage return stands in front of it. -/
lemma crlfOnly_iff {text : List Char} :
    CrlfOnly text ↔ ∀ front rest, text = front ++ '\n' :: rest → ['\r'] <:+ front := by
  unfold CrlfOnly
  rw [List.isChain_iff_forall_rel_of_append_cons_cons]
  constructor
  · rintro h front rest rfl
    rcases List.eq_nil_or_concat front with rfl | ⟨front, c, rfl⟩
    · have hstart : '\n' = '\r' := h (show _ = [] ++ '\n' :: '\n' :: rest from rfl) rfl
      exact absurd hstart (by decide)
    · have hlast : c = '\r' := h (show _ = ('\n' :: front) ++ c :: '\n' :: rest by simp) rfl
      rw [hlast, List.concat_eq_append]
      exact List.suffix_append _ _
  · rintro h before c front rest heq rfl
    cases front with
    | nil =>
      obtain ⟨-, rfl⟩ := List.cons.inj heq
      have hnil := List.suffix_nil.mp (h [] rest rfl)
      exact absurd hnil (by simp)
    | cons d front =>
      obtain ⟨-, rfl⟩ := List.cons.inj heq
      obtain ⟨more, hmore⟩ := h (front ++ [before]) rest (by simp)
      exact (List.cons.inj (List.append_inj_right' hmore rfl)).1.symm

/-- A text without line feeds is of this kind. -/
lemma crlfOnly_of_not_mem {text : List Char} (h : '\n' ∉ text) : CrlfOnly text := by
  rw [crlfOnly_iff]
  rintro front rest rfl
  exact absurd (by simp) h

/-- Line ends that fit stay when a text is put behind another one. -/
lemma CrlfOnly.append {a b : List Char} (ha : CrlfOnly a) (hb : CrlfOnly b) : CrlfOnly (a ++ b) := by
  unfold CrlfOnly at *
  obtain ⟨hseam, hb⟩ := List.isChain_cons.mp hb
  rw [← List.cons_append, List.isChain_append]
  refine ⟨ha, hb, ?_⟩
  rintro x - y hy rfl
  exact absurd (hseam _ hy rfl) (by decide)

/-- The beginning of a text of this kind is of this kind. -/
lemma CrlfOnly.left {a b : List Char} (h : CrlfOnly (a ++ b)) : CrlfOnly a := by
  unfold CrlfOnly at *
  rw [← List.cons_append, List.isChain_append] at h
  exact h.1

/-- What stands behind a character has fitting line ends, unless the character belongs to one. -/
lemma CrlfOnly.right {a b : List Char} {c : Char} (hc : c ≠ '\r') (h : CrlfOnly (a ++ c :: b)) :
    CrlfOnly b := by
  unfold CrlfOnly at *
  rw [← List.cons_append, List.isChain_append] at h
  obtain ⟨hseam, hb⟩ := List.isChain_cons.mp h.2.1
  rw [List.isChain_cons]
  refine ⟨?_, hb⟩
  intro y hy hfeed
  exact absurd (hseam y hy hfeed) hc

/-- Texts of this kind that are put together are of this kind. -/
lemma crlfOnly_flatMap {α : Type} {f : α → List Char} {list : List α}
    (h : ∀ a ∈ list, CrlfOnly (f a)) : CrlfOnly (list.flatMap f) := by
  induction list with
  | nil => exact crlfOnly_of_not_mem (by simp)
  | cons first rest ih =>
    rw [List.flatMap_cons]
    apply CrlfOnly.append
    · exact h first (by simp)
    · exact ih fun a ha => h a (List.mem_cons_of_mem _ ha)

/-- In such a text, a line feed anywhere is part of a line end. -/
lemma CrlfOnly.contains {text : List Char} (h : CrlfOnly text) (hmem : '\n' ∈ text) :
    contains ['\r', '\n'] text = true := by
  obtain ⟨front, rest, rfl⟩ := List.append_of_mem hmem
  obtain ⟨line, rfl⟩ := crlfOnly_iff.mp h front rest rfl
  rw [contains_iff]
  exact ⟨line, rest, by simp⟩

end Text

namespace Import

open Code (IsName)
open Text (CrlfOnly)

/-! ## Imports -/

/-- A brace list is rewritten within its line. -/
lemma crlfOnly_extend? {specifier text new : List Char} {symbols : List (List Char)}
    (hsymbols : ∀ symbol ∈ symbols, IsName symbol) (h : extend? specifier symbols text = some new)
    (hends : CrlfOnly text) (hfeed : '\n' ∈ text) : CrlfOnly new ∧ '\n' ∈ new := by
  obtain ⟨start, opening, names, closed, hlist, rfl⟩ := extend?_eq_some h
  have hnew : '\n' ∉ extendedList names symbols :=
    not_mem_extendedList hlist.no_lineFeed hsymbols (by decide) (by decide) (by decide)
  rw [hlist.text_eq] at hends hfeed
  have hclosed : CrlfOnly closed := by
    rw [← List.append_assoc] at hends
    exact hends.right (by decide)
  constructor
  · have hbrace : CrlfOnly (['\x7d'] ++ closed) := CrlfOnly.append (by decide) hclosed
    exact hends.left.append ((Text.crlfOnly_of_not_mem hnew).append hbrace)
  · have hnames := hlist.no_lineFeed
    simp only [List.mem_append, List.mem_cons] at hfeed ⊢
    tauto

/-- New lines get the line ends of the text. The anchor ends with a quote, a blank or a semicolon, so
that no line end is torn apart. -/
lemma crlfOnly_insertAfter {specifier text : List Char} {anchor : Anchor}
    (h : anchor? specifier text = some anchor) {list : List Addition}
    (hsymbols : ∀ addition ∈ list, ∀ symbol ∈ addition.symbols.map String.toList, IsName symbol)
    (hspecifiers : ∀ addition ∈ list, '\n' ∉ addition.specifier.toList)
    (hends : CrlfOnly text) (hfeed : '\n' ∈ text) : CrlfOnly (insertAfter anchor list text) := by
  have hline : lineEnd text = ['\r', '\n'] := if_pos (hends.contains hfeed)
  obtain ⟨a, quote, rest, rfl, hquote, hrest⟩ := anchor?_ends h
  have hafter : CrlfOnly anchor.after := by
    have hchars : ∀ c ∈ quote :: rest, c ≠ '\r' := by
      rintro c hc rfl
      rcases List.mem_cons.mp hc with rfl | hc
      · exact absurd hquote (by decide)
      · exact absurd (hrest _ hc) (by decide)
    obtain ⟨front, c, hsplit⟩ := (List.eq_nil_or_concat (quote :: rest)).resolve_left (by simp)
    rw [hsplit] at hends hchars
    have hends' : CrlfOnly ((a ++ front) ++ c :: anchor.after) := by simpa using hends
    exact hends'.right (hchars c (by simp))
  have hlines : CrlfOnly (list.flatMap fun addition =>
      lineEnd (a ++ (quote :: rest ++ anchor.after))
        ++ importLine anchor.quote anchor.terminated addition) := by
    apply Text.crlfOnly_flatMap
    intro addition hmem
    rw [hline]
    have hnot := lineFeed_not_mem_importLine (anchor?_quote h) anchor.terminated
      (hsymbols addition hmem) (hspecifiers addition hmem)
    exact CrlfOnly.append (by decide) (Text.crlfOnly_of_not_mem hnot)
  have hcut : a ++ (quote :: rest ++ anchor.after) = (a ++ quote :: rest) ++ anchor.after := by simp
  rw [hcut] at hends hlines ⊢
  rw [insertAfter_eq]
  exact (hends.left.append hlines).append hafter

/-- **The import stage follows the line ends of the text.** -/
lemma crlfOnly_ensure {imports : Settings.Imports}
    (hsymbols : ∀ required ∈ imports.required, IsName required.symbol.toList)
    (hspecifiers : ∀ required ∈ imports.required, '\n' ∉ required.specifier.toList)
    {text : List Char} (hends : CrlfOnly text) (hfeed : '\n' ∈ text) :
    CrlfOnly (ensure imports text).text := by
  have hextended : CrlfOnly (extendAll (additions imports text) text).1.text ∧
      '\n' ∈ (extendAll (additions imports text) text).1.text := by
    refine extendAll_keeps (P := fun text => CrlfOnly text ∧ '\n' ∈ text) ?_ ⟨hends, hfeed⟩
    intro addition hmem text new hextend hboth
    exact crlfOnly_extend? (isName_of_mem_additions hsymbols hmem) hextend hboth.1 hboth.2
  rcases ensure_cases imports text with ⟨-, heq⟩ | ⟨anchor, hanchor, heq⟩ | ⟨-, heq⟩
  · rw [heq]
    exact hextended.1
  · rw [heq]
    apply crlfOnly_insertAfter hanchor
    · exact fun addition hmem => isName_of_mem_additions hsymbols (left_subset _ _ hmem)
    · intro addition hmem
      obtain ⟨required, hrequired, hspecifier⟩ :=
        exists_required_of_mem_additions (left_subset _ _ hmem)
      rw [← hspecifier]
      exact hspecifiers required hrequired
    · exact hextended.1
    · exact hextended.2
  · rw [heq]
    exact hextended.1

end Import

namespace Query

open Text (CrlfOnly)

/-! ## Wrapping -/

/-- The first line of the new call ends with a line feed only. -/
lemma not_crlfOnly_wrapperCall (wrapper indent expr key : List Char) (seconds : Nat)
    (tag front rest : List Char) :
    ¬ CrlfOnly (front ++ wrapperCall wrapper indent expr key seconds tag ++ rest) := by
  intro h
  obtain ⟨lines, hlines⟩ : ∃ lines, front ++ wrapperCall wrapper indent expr key seconds tag ++ rest
      = (front ++ "await ".toList ++ wrapper ++ ['(']) ++ '\n' :: lines := by
    unfold wrapperCall
    simp only [List.intercalate, List.intersperse, List.flatten_cons, List.append_assoc,
      List.cons_append, List.nil_append]
    exact ⟨_, rfl⟩
  obtain ⟨line, hline⟩ := Text.crlfOnly_iff.mp h _ _ hlines
  have hlast := List.append_inj_right' hline rfl
  exact absurd hlast (by decide)

/-- The parts that wrapping takes a text apart into keep their line ends. -/
lemma StandsIn.crlfOnly {wrapping : Settings.Wrapping} {query : Query}
    {text a gap calls b : List Char} (h : StandsIn wrapping query text a gap calls b)
    (hclient : Code.IsName query.client.toList) (hends : CrlfOnly text) :
    CrlfOnly a ∧ CrlfOnly (query.client.toList ++ calls) ∧ CrlfOnly b := by
  obtain ⟨⟨inner, hinner⟩, -⟩ := h.calls_ends
  obtain ⟨c, name, hname⟩ := List.exists_cons_of_ne_nil hclient.ne_nil
  have hc : Code.isNameChar c = true := hclient.chars c (by simp [hname])
  have hcr : c ≠ '\r' := by
    rintro rfl
    exact absurd hc (by decide)
  have hlf : '\n' ∉ [c] := by
    intro hmem
    obtain rfl := List.mem_singleton.mp hmem
    exact absurd hc (by decide)
  have hfront := h.text_eq ▸ hends
  refine ⟨?_, ?_, ?_⟩
  · simp only [List.append_assoc] at hfront
    exact hfront.left
  · rw [hname] at hfront ⊢
    have hcut : a ++ "await".toList ++ gap ++ (c :: name) ++ calls ++ b
        = (a ++ "await".toList ++ gap) ++ c :: (name ++ calls ++ b) := by simp
    rw [hcut] at hfront
    exact (Text.crlfOnly_of_not_mem hlf).append (hfront.right hcr).left
  · rw [hinner] at hfront
    have hcut : a ++ "await".toList ++ gap ++ query.client.toList ++ (inner ++ [')']) ++ b
        = (a ++ "await".toList ++ gap ++ query.client.toList ++ inner) ++ ')' :: b := by simp
    rw [hcut] at hfront
    exact hfront.right (by decide)

end Query

namespace Codemod

open Text (CrlfOnly)

/-! ## Runs -/

/-- **A run keeps the line ends of a file exactly if it does not wrap the query.** Checked settings have
a codemod. Let no module specifier have a line feed in it. Under every strategy, with wrapping on or
off, for every route and every text that has a line end of two characters, and no line feed without a
carriage return: new content has no such line feed either, if and only if the query was not wrapped. If
it was, then the call of the wrapper is at fault, and all around it and in the expression the line ends
are as they were. -/
theorem crlfOnly_iff_not_wrapped {settings : Settings} (h : settings.violation? = none)
    (hspecifiers : ∀ required ∈ settings.imports.required, '\n' ∉ required.specifier.toList) :
    ∃ codemod, ofSettings settings = .ok codemod ∧
      ∀ (strategy : Strategy) (enabled : Bool) (route : Route) (text new : List Char),
        let chosen := (codemod.withStrategy strategy).withWrapping enabled
        let policy := chosen.catalog.resolve route
        Text.contains ['\r', '\n'] text = true → CrlfOnly text →
        (chosen.run route text).content = some new →
          (CrlfOnly new ↔ (chosen.run route text).result ≠ .wrapped) ∧
          ((chosen.run route text).result = .wrapped → ∃ front indent expr rest,
            new = front ++ Query.wrapperCall settings.wrap.wrapper.toList indent expr
              (Query.keyLiteral settings.wrap.params.toList policy.keyBase.toList route.parameters)
              policy.revalidate (policy.tag.expression settings.wrap.registry).toList ++ rest ∧
            CrlfOnly front ∧ CrlfOnly expr ∧ CrlfOnly rest) := by
  obtain ⟨codemod, hok, himports, hwrapping⟩ := ofSettings_eq_ok h
  refine ⟨codemod, hok, ?_⟩
  intro strategy enabled route text new chosen policy hcontains hends hcontent
  have hchosen : chosen.imports = settings.imports := himports
  have hfields : chosen.wrapping = { settings.wrap with enabled } := by
    rw [← hwrapping]
    rfl
  have hfeed : '\n' ∈ text := (Text.contains_iff.mp hcontains).subset (by simp)
  have himported : CrlfOnly (Import.ensure chosen.imports text).text := by
    rw [hchosen]
    exact Import.crlfOnly_ensure (fun required hmem => Settings.isName_symbol h hmem) hspecifiers
      hends hfeed
  cases hobstacle : Eligibility.obstacle? chosen.eligibility chosen.wrapping.wrapper route text with
  | some obstacle =>
    rw [(run_of_obstacle?_eq_some hobstacle).1] at hcontent
    simp at hcontent
  | none =>
    obtain ⟨hresult, hnew⟩ := run_eq_edit hobstacle
    rw [hnew] at hcontent
    split at hcontent
    · simp at hcontent
    obtain rfl := Option.some.inj hcontent
    rw [hresult]
    rcases chosen.edit_cases route policy text (Import.ensure chosen.imports text) with
      ⟨hlabel, hwrapped, -, -⟩ | ⟨hlabel, htext, -⟩ | ⟨hlabel, htext, -⟩ | ⟨hlabel, htext, -⟩
    · obtain ⟨query, hquery, hwrap⟩ := wrappedText?_eq_some hwrapped
      obtain ⟨front, gap, calls, rest, hstands⟩ := Query.mem_findAll hquery
      have hclient : Code.IsName query.client.toList := by
        have hmem := hstands.client_mem
        rw [hfields] at hmem
        have hwrap := Settings.Wrapping.violation?_eq_none_iff.mp (Settings.violation?_eq_none h).1
        exact Code.isName_of_isIdentifier (hwrap.2.2.2 _ hmem)
      obtain ⟨hfront, hexpr, hrest⟩ := hstands.crlfOnly hclient himported
      rw [hstands.wrapText_eq, Query.wrappedExpression_eq_wrapperCall, hfields] at hwrap
      rw [hwrap, hlabel]
      refine ⟨iff_of_false (Query.not_crlfOnly_wrapperCall _ _ _ _ _ _ _ _) (by simp), fun _ => ?_⟩
      exact ⟨front, _, _, rest, rfl, hfront, hexpr, hrest⟩
    · rw [htext, hlabel]
      exact ⟨iff_of_true himported (by simp), fun hne => by simp at hne⟩
    · rw [htext, hlabel]
      exact ⟨iff_of_true himported (by simp), fun hne => by simp at hne⟩
    · rw [htext, hlabel]
      exact ⟨iff_of_true himported (by simp), fun hne => by simp at hne⟩

/-- One file, with wrapping off and on: first only the imports are added, and the line ends are kept.
Then the query is wrapped, and they are not. -/
theorem crlfOnly_iff_not_wrapped_users :
    let settings : Settings := { policy := { durations := [], tags := [], routes := [] } }
    let route : Route := ⟨"app/api/users/route.ts"⟩
    let text := "import a from 'next/server'\r\nexport function GET() \x7b\r\n".toList
      ++ "  const \x7b data \x7d = await supabase.from('a').select()\r\n\x7d\r\n".toList
    settings.violation? = none ∧
      (∀ required ∈ settings.imports.required, '\n' ∉ required.specifier.toList) ∧
      Text.contains ['\r', '\n'] text = true ∧ CrlfOnly text ∧
      ∃ codemod imported wrapped, ofSettings settings = .ok codemod ∧
        (((codemod.withStrategy .layered).withWrapping false).run route text).content
          = some imported ∧ CrlfOnly imported ∧
        (((codemod.withStrategy .layered).withWrapping true).run route text).content
          = some wrapped ∧ ¬ CrlfOnly wrapped := by
  intro settings route text
  have hvalid : settings.violation? = none := by decide +kernel
  have hspecifiers : ∀ required ∈ settings.imports.required, '\n' ∉ required.specifier.toList := by
    decide +kernel
  have htext : text = _ ++ _ := congrArg₂ (· ++ ·) String.toList_ofList String.toList_ofList
  have hcontains : Text.contains ['\r', '\n'] text = true := by
    rw [htext]
    decide +kernel
  have hends : CrlfOnly text := by
    rw [htext]
    decide +kernel
  refine ⟨hvalid, hspecifiers, hcontains, hends, ?_⟩
  obtain ⟨codemod, hok, hkeeps⟩ := crlfOnly_iff_not_wrapped hvalid hspecifiers
  have hruns : (match ofSettings settings with
      | .error _ => false
      | .ok codemod =>
        let off := ((codemod.withStrategy .layered).withWrapping false).run route text
        let on := ((codemod.withStrategy .layered).withWrapping true).run route text
        off.changed && off.result != .wrapped && on.changed && on.result == .wrapped) = true := by
    rw [htext]
    decide +kernel
  rw [hok] at hruns
  simp only [Bool.and_eq_true, bne_iff_ne, beq_iff_eq] at hruns
  obtain ⟨⟨⟨hoff, hadded⟩, hon⟩, hwrapped⟩ := hruns
  obtain ⟨imported, himported⟩ := Option.isSome_iff_exists.mp hoff
  obtain ⟨wrapped, hcontent⟩ := Option.isSome_iff_exists.mp hon
  refine ⟨codemod, imported, wrapped, hok, himported, ?_, hcontent, ?_⟩
  · exact (hkeeps .layered false route text imported hcontains hends himported).1.mpr hadded
  · intro hnew
    exact (hkeeps .layered true route text wrapped hcontains hends hcontent).1.mp hnew hwrapped

/-- **A file with two kinds of line ends in the end.** The new imports end like the lines of the file,
and the lines of the new call do not. -/
theorem wrapped_mixes_line_ends :
    let settings : Settings := { policy := { durations := [], tags := [], routes := [] } }
    let text := "import a from 'next/server'\r\nexport function GET() \x7b\r\n".toList
      ++ "  const \x7b data \x7d = await supabase.from('a').select()\r\n\x7d\r\n".toList
    let new := "import a from 'next/server'\r\nimport \x7b unstable_cache \x7d from 'next/cache'\r\n".toList
      ++ "import \x7b CACHE_TAGS \x7d from '@/lib/cache'\r\nexport function GET() \x7b\r\n".toList
      ++ "  const \x7b data \x7d = await unstable_cache(\n".toList
      ++ "    async () => await supabase.from('a').select(),\n    ['users'],\n".toList
      ++ "    \x7b revalidate: 300, tags: ['general'] \x7d\n  )()\r\n\x7d\r\n".toList
    settings.violation? = none ∧ CrlfOnly text ∧ ¬ CrlfOnly new ∧
      ∃ codemod, ofSettings settings = .ok codemod ∧
        ((codemod.withWrapping true).run ⟨"app/api/users/route.ts"⟩ text).content = some new := by
  intro settings text new
  have htext : text = _ ++ _ := congrArg₂ (· ++ ·) String.toList_ofList String.toList_ofList
  have hnew : new = _ ++ _ ++ _ ++ _ ++ _ :=
    congrArg₂ (· ++ ·) (congrArg₂ (· ++ ·) (congrArg₂ (· ++ ·) (congrArg₂ (· ++ ·)
      String.toList_ofList String.toList_ofList) String.toList_ofList) String.toList_ofList)
      String.toList_ofList
  refine ⟨by decide +kernel, ?_, ?_, _, rfl, ?_⟩
  · rw [htext]
    decide +kernel
  · rw [hnew]
    decide +kernel
  · rw [htext, hnew]
    decide +kernel

end Codemod

end CachedRoutes
