import CachedRoutes.Proofs.Code.Invocation
import CachedRoutes.Proofs.Import.Ensure

/-!
# The import stage and calls of a function

A file counts as cached if its text calls the caching function, and the stage for the imports writes
into that text. It writes brace lists anew and it inserts whole lines; neither makes a call or takes
one away, as long as no parenthesis comes with a module specifier.

* **Brace lists** (`callsFunction_extend?`), item by item.
* **Lines** (`callsFunction_insertAfter`): they start behind a quote and end with one.
* **The stage** (`callsFunction_ensure`).
-/

namespace CachedRoutes.Import

open Code (IsName callsFunction)

/-! ## Brace lists -/

section Lists

variable {name : List Char} (hname : IsName name)
include hname

/-- A comma list has the calls of its items. -/
lemma callsFunction_commaList (items : List (List Char)) :
    callsFunction name (commaList items) = items.any (callsFunction name) := by
  induction items with
  | nil => exact Code.callsFunction_eq_false_of_not_mem (by simp)
  | cons first rest ih =>
    cases rest with
    | nil => simp
    | cons second rest =>
      have hspace : ∀ c ∈ [' '], Code.endsWord c = true ∧ Code.isNameChar c = false := by
        intro c hc
        obtain rfl := List.mem_singleton.mp hc
        decide
      have hrest := Code.callsFunction_margin_left hname hspace (commaList (second :: rest))
      rw [List.singleton_append] at hrest
      rw [commaList_cons_cons, Code.callsFunction_divided hname (by decide), hrest, ih]
      exact List.any_cons.symm

/-- A text has the calls of its fields. -/
lemma callsFunction_fields (text : List Char) :
    (Text.fields ',' text).any (callsFunction name) = callsFunction name text := by
  -- by the length of the text, one field after the other
  induction hn : text.length using Nat.strong_induction_on generalizing text with
  | _ n ih =>
    by_cases hmem : ',' ∈ text
    · obtain ⟨a, b, rfl, ha⟩ := List.eq_append_cons_of_mem hmem
      rw [Text.fields_append ha, List.any_cons, ih b.length (by simp [← hn]; omega) b rfl,
        Code.callsFunction_divided hname (by decide)]
    · rw [Text.fields_of_not_mem hmem]
      simp

/-- A brace list has the calls of the listed names. -/
lemma callsFunction_nameList (names : List Char) :
    (nameList names).any (callsFunction name) = callsFunction name names := by
  have htrim : ∀ field, callsFunction name (Text.trim field) = callsFunction name field := by
    intro field
    obtain ⟨left, right, hsplit, hleft, hright⟩ := trim_split field
    conv_rhs => rw [hsplit]
    exact (Code.callsFunction_blanks hname hleft hright _).symm
  have hnil : callsFunction name [] = false := Code.callsFunction_eq_false_of_not_mem (by simp)
  rw [← callsFunction_fields hname names, nameList, List.any_filter, List.any_map]
  congr 1
  funext field
  rw [Function.comp_apply, htrim]
  by_cases hempty : Text.trim field = []
  · rw [← htrim field, hempty, hnil]
    rfl
  · simp [hempty]

/-- The added symbols make no call. -/
lemma callsFunction_extendedList {symbols : List (List Char)}
    (hsymbols : ∀ symbol ∈ symbols, IsName symbol) (names : List Char) :
    callsFunction name (extendedList names symbols) = callsFunction name names := by
  have hnone : symbols.any (callsFunction name) = false := by
    rw [List.any_eq_false]
    intro symbol hsymbol
    rw [Code.callsFunction_eq_false_of_not_mem ((hsymbols symbol hsymbol).not_mem (by decide))]
    simp
  have hblanks : ∀ c ∈ [' '], Text.isBlank c = true := by
    intro c hc
    obtain rfl := List.mem_singleton.mp hc
    decide
  have hlist := Code.callsFunction_blanks hname hblanks hblanks
    (commaList (nameList names ++ symbols))
  rw [List.singleton_append] at hlist
  rw [extendedList, hlist, callsFunction_commaList hname, List.any_append, hnone, Bool.or_false,
    callsFunction_nameList hname]

/-- **Extending a list makes no call and takes none away.** -/
lemma callsFunction_extend? {specifier text new : List Char} {symbols : List (List Char)}
    (hsymbols : ∀ symbol ∈ symbols, IsName symbol)
    (h : extend? specifier symbols text = some new) :
    callsFunction name new = callsFunction name text := by
  obtain ⟨start, opening, names, closed, hlist, rfl⟩ := extend?_eq_some h
  obtain ⟨front, hfront⟩ := hlist.opening_ends
  have hcut : ∀ list, start ++ opening ++ (list ++ '\x7d' :: closed)
      = front ++ '\x7b' :: (list ++ '\x7d' :: closed) := by
    intro list
    rw [hfront]
    simp
  have hparts : ∀ list, callsFunction name (start ++ opening ++ (list ++ '\x7d' :: closed))
      = (callsFunction name front || (callsFunction name list || callsFunction name closed)) := by
    intro list
    rw [hcut, Code.callsFunction_divided hname (by decide),
      Code.callsFunction_divided hname (by decide)]
  rw [hlist.text_eq, hparts, hparts, callsFunction_extendedList hname hsymbols]

end Lists

/-! ## Lines -/

/-- An inserted line ends with a quote or a semicolon, and its only parentheses are those of the
module specifier. -/
lemma importLine_ends {quote : Char} (hquote : isImportQuote quote = true) (terminated : Bool)
    {addition : Addition} (haddition : ∀ symbol ∈ addition.symbols.map String.toList, IsName symbol)
    (hparen : '(' ∉ addition.specifier.toList) :
    ∃ front c, importLine quote terminated addition = front ++ [c] ∧ Code.isDivider c = true ∧
      '(' ∉ front := by
  have hdivider : Code.isDivider quote = true ∧ quote ≠ '(' := by
    simp only [isImportQuote, Bool.or_eq_true, beq_iff_eq] at hquote
    rcases hquote with rfl | rfl <;> decide
  have hlist : '(' ∉ commaList (addition.symbols.map String.toList) := by
    intro hmem
    rcases mem_commaList hmem with h | h | ⟨item, hitem, hc⟩
    · exact absurd h (by decide)
    · exact absurd h (by decide)
    · exact (haddition item hitem).not_mem (by decide) hc
  have hfront : '(' ∉ "import \x7b ".toList ++ commaList (addition.symbols.map String.toList)
      ++ " \x7d from ".toList ++ quote :: addition.specifier.toList := by
    simp only [List.mem_append, List.mem_cons, not_or]
    exact ⟨⟨⟨by decide, hlist⟩, by decide⟩, Ne.symm hdivider.2, hparen⟩
  unfold importLine
  cases terminated with
  | false => exact ⟨_, quote, rfl, hdivider.1, hfront⟩
  | true =>
    refine ⟨"import \x7b ".toList ++ commaList (addition.symbols.map String.toList)
      ++ " \x7d from ".toList ++ quote :: addition.specifier.toList ++ [quote], ';', by simp,
      by decide, ?_⟩
    intro hmem
    rcases List.mem_append.mp hmem with hmem | hmem
    · exact hfront hmem
    · exact hdivider.2 (List.mem_singleton.mp hmem).symm

/-- Inserted lines end with a quote or a semicolon, and have no parenthesis. -/
lemma insertedLines_ends {quote : Char} (hquote : isImportQuote quote = true) (terminated : Bool)
    {lineFeed : List Char} (hfeed : '(' ∉ lineFeed) {list : List Addition} (hne : list ≠ [])
    (hsymbols : ∀ addition ∈ list, ∀ symbol ∈ addition.symbols.map String.toList, IsName symbol)
    (hparen : ∀ addition ∈ list, '(' ∉ addition.specifier.toList) :
    ∃ front c, (list.flatMap fun addition => lineFeed ++ importLine quote terminated addition)
        = front ++ [c] ∧ Code.isDivider c = true ∧ '(' ∉ front := by
  induction list with
  | nil => exact absurd rfl hne
  | cons first rest ih =>
    obtain ⟨line, c, hline, hc, hfirst⟩ := importLine_ends hquote terminated
      (hsymbols first (by simp)) (hparen first (by simp))
    rw [List.flatMap_cons, hline]
    cases rest with
    | nil => exact ⟨lineFeed ++ line, c, by simp, hc, by simp [hfeed, hfirst]⟩
    | cons second rest =>
      obtain ⟨front, d, heq, hd, hfront⟩ := ih (by simp)
        (fun addition hmem => hsymbols addition (List.mem_cons_of_mem _ hmem))
        (fun addition hmem => hparen addition (List.mem_cons_of_mem _ hmem))
      have hcparen : '(' ≠ c := by
        rintro rfl
        exact absurd hc (by decide)
      rw [heq]
      exact ⟨lineFeed ++ (line ++ [c]) ++ front, d, by simp, hd,
        by simp [hfeed, hfirst, hcparen, hfront]⟩

/-- **Inserting lines makes no call and takes none away.** -/
lemma callsFunction_insertAfter {name : List Char} (hname : IsName name)
    {specifier text : List Char} {anchor : Anchor} (h : anchor? specifier text = some anchor)
    {list : List Addition}
    (hsymbols : ∀ addition ∈ list, ∀ symbol ∈ addition.symbols.map String.toList, IsName symbol)
    (hparen : ∀ addition ∈ list, '(' ∉ addition.specifier.toList) :
    callsFunction name (insertAfter anchor list text) = callsFunction name text := by
  obtain ⟨a, quote, rest, rfl, hquote, hrest⟩ := anchor?_ends h
  have hdivider : Code.isDivider quote = true := by
    simp only [isImportQuote, Bool.or_eq_true, beq_iff_eq] at hquote
    rcases hquote with rfl | rfl <;> decide
  have hmargin : ∀ c ∈ rest, Code.endsWord c = true ∧ Code.isNameChar c = false := by
    intro c hc
    rcases hrest c hc with hc | rfl
    · have hblank := Text.isBlank_of_isIndent hc
      exact ⟨Code.endsWord_of_isBlank hblank, Code.isNameChar_of_isBlank hblank⟩
    · decide
  have hcut : a ++ (quote :: rest ++ anchor.after) = (a ++ quote :: rest) ++ anchor.after := by simp
  have hfeed : '(' ∉ lineEnd (a ++ quote :: rest ++ anchor.after) := by
    unfold lineEnd
    split <;> decide
  rw [hcut, insertAfter_eq]
  by_cases hne : list = []
  · simp [hne]
  obtain ⟨front, c, hlines, hc, hfront⟩ := insertedLines_ends (anchor?_quote h) anchor.terminated
    hfeed hne hsymbols hparen
  rw [hlines]
  calc callsFunction name (a ++ quote :: rest ++ (front ++ [c]) ++ anchor.after)
      = callsFunction name (a ++ quote :: (rest ++ (front ++ c :: anchor.after))) := by simp
    _ = (callsFunction name a || (callsFunction name front || callsFunction name anchor.after)) := by
        rw [Code.callsFunction_divided hname hdivider,
          Code.callsFunction_margin_left hname hmargin, Code.callsFunction_divided hname hc]
    _ = (callsFunction name a || callsFunction name (rest ++ anchor.after)) := by
        rw [Code.callsFunction_eq_false_of_not_mem hfront, Bool.false_or,
          Code.callsFunction_margin_left hname hmargin]
    _ = callsFunction name (a ++ quote :: rest ++ anchor.after) := by
        rw [← Code.callsFunction_divided hname hdivider]
        simp

/-! ## The stage -/

/-- **The import stage makes no call and takes none away.** -/
lemma callsFunction_ensure {name : List Char} (hname : IsName name) {imports : Settings.Imports}
    (hsymbols : ∀ required ∈ imports.required, IsName required.symbol.toList)
    (hparen : ∀ required ∈ imports.required, '(' ∉ required.specifier.toList) (text : List Char) :
    callsFunction name (ensure imports text).text = callsFunction name text := by
  have hnames : ∀ addition ∈ additions imports text,
      ∀ symbol ∈ addition.symbols.map String.toList, IsName symbol :=
    fun _ hmem => isName_of_mem_additions hsymbols hmem
  have hspecifiers : ∀ addition ∈ additions imports text, '(' ∉ addition.specifier.toList := by
    intro addition hmem
    obtain ⟨required, hrequired, hspecifier⟩ := exists_required_of_mem_additions hmem
    rw [← hspecifier]
    exact hparen required hrequired
  have hextended : callsFunction name (extendAll (additions imports text) text).1.text
      = callsFunction name text :=
    extendAll_keeps (P := fun new => callsFunction name new = callsFunction name text)
      (fun addition hmem _ _ hextend hsame =>
        (callsFunction_extend? hname (hnames addition hmem) hextend).trans hsame) rfl
  rcases ensure_cases imports text with ⟨-, heq⟩ | ⟨anchor, hanchor, heq⟩ | ⟨-, heq⟩
  · rw [heq, hextended]
  · have hleft := left_subset (additions imports text) text
    rw [heq, callsFunction_insertAfter hname hanchor (fun a ha => hnames a (hleft ha))
      (fun a ha => hspecifiers a (hleft ha)), hextended]
  · rw [heq, hextended]

end CachedRoutes.Import
