import CachedRoutes.Proofs.Import.Extend

/-!
# Ensuring imports is settled after one run

A run of the import stage extends brace lists, one module after the other, and inserts lines for the
modules that have none. This module follows a text through both edits.

* **What stays**: names, through each of the two edits (`infix_extendAll`, `infix_insertAfter`), and an
  exported handler (`hasGetHandler_ensure`).
* **Half a success is final** (`ensure_settled`): afterwards nothing is missing, or else no list can
  be extended for what is missing and there is no anchor.
* **A second run does nothing** (`ensure_idempotent`), and the texts that a first run leaves alone are
  the settled ones.
-/

namespace CachedRoutes.Import

open Code (IsName)

/-- Needed imports that can be written into code: symbols are names, and specifiers can stand between
quotes on one line. -/
structure Writable (imports : Settings.Imports) : Prop where
  symbols : ∀ required ∈ imports.required, IsName required.symbol.toList
  specifiers : ∀ required ∈ imports.required, PlainSpecifier required.specifier.toList

/-! ## Additions -/

/-- The text with an addition made to an existing list, if there is one. -/
def Addition.extend? (addition : Addition) (text : List Char) : Option (List Char) :=
  Import.extend? addition.specifier.toList (addition.symbols.map String.toList) text

/-- An addition asks for imports that are needed and missing. -/
lemma mem_of_mem_additions {imports : Settings.Imports} {text : List Char} {addition : Addition}
    (h : addition ∈ additions imports text) :
    addition.symbols ≠ [] ∧ ∀ symbol ∈ addition.symbols, ∃ required ∈ missing imports text,
      required.symbol = symbol ∧ required.specifier = addition.specifier := by
  simp only [additions, List.mem_filter, List.mem_map] at h
  obtain ⟨⟨specifier, -, rfl⟩, hne⟩ := h
  refine ⟨by simpa using hne, ?_⟩
  intro symbol hsymbol
  obtain ⟨required, hrequired, rfl⟩ := List.mem_map.mp hsymbol
  rw [List.mem_filter, beq_iff_eq] at hrequired
  exact ⟨required, hrequired.1, rfl, hrequired.2⟩

/-- The symbols that are to be added are names. -/
lemma isName_of_mem_additions {imports : Settings.Imports}
    (h : ∀ required ∈ imports.required, IsName required.symbol.toList) {text : List Char}
    {addition : Addition} (hmem : addition ∈ additions imports text) :
    ∀ symbol ∈ addition.symbols.map String.toList, IsName symbol := by
  intro symbol hsymbol
  obtain ⟨string, hstring, rfl⟩ := List.mem_map.mp hsymbol
  obtain ⟨required, hrequired, rfl, -⟩ := (mem_of_mem_additions hmem).2 string hstring
  exact h required (List.mem_filter.mp hrequired).1

/-- Symbols are added to modules that are needed. -/
lemma exists_required_of_mem_additions {imports : Settings.Imports} {text : List Char}
    {addition : Addition} (h : addition ∈ additions imports text) :
    ∃ required ∈ imports.required, required.specifier = addition.specifier := by
  obtain ⟨hne, hsymbols⟩ := mem_of_mem_additions h
  obtain ⟨symbol, hsymbol⟩ := List.exists_mem_of_ne_nil _ hne
  obtain ⟨required, hrequired, -, hspecifier⟩ := hsymbols symbol hsymbol
  exact ⟨required, (List.mem_filter.mp hrequired).1, hspecifier⟩

/-- Every missing import is in the addition for its module. -/
lemma exists_addition {imports : Settings.Imports} {text : List Char}
    {required : Settings.RequiredImport} (h : required ∈ missing imports text) :
    ∃ addition ∈ additions imports text, addition.specifier = required.specifier ∧
      required.symbol ∈ addition.symbols := by
  have hmem : required ∈ imports.required := (List.mem_filter.mp h).1
  have hsymbol : required.symbol ∈ ((missing imports text).filter
      (·.specifier == required.specifier)).map (·.symbol) :=
    List.mem_map.mpr ⟨required, List.mem_filter.mpr ⟨h, by simp⟩, rfl⟩
  refine ⟨⟨required.specifier, _⟩, ?_, rfl, hsymbol⟩
  simp only [additions, List.mem_filter, List.mem_map]
  refine ⟨⟨required.specifier, ?_, rfl⟩, ?_⟩
  · rw [modules, List.mem_eraseDups]
    exact List.mem_map.mpr ⟨required, hmem, rfl⟩
  · simpa using List.ne_nil_of_mem hsymbol

/-- There is one addition for each module. -/
lemma additions_pairwise (imports : Settings.Imports) (text : List Char) :
    (additions imports text).Pairwise fun a b => a.specifier ≠ b.specifier :=
  List.Pairwise.filter _ (List.pairwise_map.mpr (nodup_eraseDups _))

/-- An addition that can be written: it comes from writable imports. -/
structure Addition.IsWritable (addition : Addition) : Prop where
  symbols : ∀ symbol ∈ addition.symbols.map String.toList, IsName symbol
  specifier : PlainSpecifier addition.specifier.toList

/-- Each addition for writable requirements can be written. -/
lemma Writable.addition {imports : Settings.Imports} (h : Writable imports) {text : List Char}
    {addition : Addition} (hmem : addition ∈ additions imports text) : addition.IsWritable := by
  constructor
  · exact isName_of_mem_additions h.symbols hmem
  · obtain ⟨required, hrequired, hspecifier⟩ := exists_required_of_mem_additions hmem
    rw [← hspecifier]
    exact h.specifiers required hrequired

/-! ## Extending one list after the other -/

/-- What every single extension keeps, all of them together keep. -/
lemma extendAll_keeps {P : List Char → Prop} {list : List Addition} {text : List Char}
    (hstep : ∀ addition ∈ list, ∀ text new, addition.extend? text = some new → P text → P new)
    (h : P text) : P (extendAll list text).1.text := by
  induction list generalizing text with
  | nil => exact h
  | cons addition rest ih =>
    have hrest : ∀ addition ∈ rest, ∀ text new, addition.extend? text = some new → P text → P new :=
      fun a ha => hstep a (List.mem_cons_of_mem _ ha)
    rw [extendAll]
    split
    · rename_i extended hextended
      exact ih hrest (hstep addition (by simp) text extended hextended h)
    · exact ih hrest h

/-- What is left over was to be added. -/
lemma left_subset (list : List Addition) (text : List Char) : (extendAll list text).2 ⊆ list := by
  induction list generalizing text with
  | nil => exact List.Subset.refl _
  | cons addition rest ih =>
    rw [extendAll]
    split
    · exact List.subset_cons_of_subset _ (ih _)
    · exact List.cons_subset_cons _ (ih _)

/-- A name of the text stays in it. -/
lemma infix_extendAll {name text : List Char} (hname : IsName name) (list : List Addition)
    (h : name <:+: text) : name <:+: (extendAll list text).1.text :=
  extendAll_keeps (fun _ _ _ _ hextend hin => infix_extend? hname hextend hin) h

/-- Every addition is made or left over: what making it brings about, and every extension keeps, is
there in the end. -/
lemma extendAll_made {P : List Char → Prop} {list : List Addition} {addition : Addition}
    (hmem : addition ∈ list) (hmade : ∀ text new, addition.extend? text = some new → P new)
    (hstep : ∀ addition ∈ list, ∀ text new, addition.extend? text = some new → P text → P new)
    (text : List Char) :
    P (extendAll list text).1.text ∨ addition ∈ (extendAll list text).2 := by
  induction list generalizing text with
  | nil => simp at hmem
  | cons first rest ih =>
    have hrest : ∀ addition ∈ rest, ∀ text new, addition.extend? text = some new → P text → P new :=
      fun a ha => hstep a (List.mem_cons_of_mem _ ha)
    rw [extendAll]
    split
    · rename_i extended hextended
      rcases List.mem_cons.mp hmem with rfl | hmem
      · exact .inl (extendAll_keeps hrest (hmade text extended hextended))
      · exact ih hmem hrest extended
    · rcases List.mem_cons.mp hmem with rfl | hmem
      · exact .inr (by simp)
      · rcases ih hmem hrest text with h | h
        · exact .inl h
        · exact .inr (List.mem_cons_of_mem _ h)

/-- The symbols of an addition that is not left over occur in the text. -/
lemma symbol_infix_extendAll {list : List Addition} {addition : Addition}
    (hlist : ∀ addition ∈ list, addition.IsWritable) (hmem : addition ∈ list) (text : List Char) :
    (∀ symbol ∈ addition.symbols.map String.toList,
      symbol <:+: (extendAll list text).1.text) ∨ addition ∈ (extendAll list text).2 := by
  refine extendAll_made (P := fun text => ∀ symbol ∈ addition.symbols.map String.toList,
    symbol <:+: text) hmem ?_ ?_ text
  · intro text new hextend symbol hsymbol
    exact symbol_infix_extend? hextend hsymbol
  · intro other _ text new hextend hin symbol hsymbol
    exact infix_extend? ((hlist addition hmem).symbols symbol hsymbol) hextend (hin symbol hsymbol)

/-- **For what is left over there is no list in the end either.** It had none when it was its turn,
and lists of other modules do not make one. -/
lemma extend?_eq_none_of_mem_left {list : List Addition} {text : List Char} {addition : Addition}
    (hlist : ∀ addition ∈ list, addition.IsWritable)
    (hone : list.Pairwise fun a b => a.specifier ≠ b.specifier)
    (hleft : addition ∈ (extendAll list text).2) (symbols : List (List Char)) :
    extend? addition.specifier.toList symbols (extendAll list text).1.text = none := by
  induction list generalizing text with
  | nil => simp [extendAll] at hleft
  | cons first rest ih =>
    have hrest : ∀ addition ∈ rest, addition.IsWritable :=
      fun a ha => hlist a (List.mem_cons_of_mem _ ha)
    obtain ⟨hfirst, hone⟩ := List.pairwise_cons.mp hone
    rw [extendAll] at hleft ⊢
    split at hleft <;> rename_i hextended
    · exact ih hrest hone hleft
    · rcases List.mem_cons.mp hleft with rfl | hleft
      · have hnone : extend? addition.specifier.toList symbols text = none :=
          extend?_eq_none_iff.mpr (extend?_eq_none_iff.mp hextended)
        refine extendAll_keeps (P := fun text => extend? addition.specifier.toList symbols text = none)
          ?_ hnone
        intro other hother text new hnew hnone
        have hne : other.specifier.toList ≠ addition.specifier.toList :=
          fun heq => hfirst other hother (String.toList_inj.mp heq).symm
        exact extend?_eq_none_of_extend? (hrest other hother).specifier
          (hlist addition (by simp)).specifier hne (hrest other hother).symbols hnew hnone
      · exact ih hrest hone hleft

/-- Where no list can be extended, all is left over. -/
lemma extendAll_of_none {list : List Addition} {text : List Char}
    (h : ∀ addition ∈ list, addition.extend? text = none) :
    extendAll list text = (⟨text, []⟩, list) := by
  induction list with
  | nil => rfl
  | cons first rest ih =>
    have hfirst : extend? first.specifier.toList (first.symbols.map String.toList) text = none :=
      h first (by simp)
    rw [extendAll, hfirst, ih fun a ha => h a (List.mem_cons_of_mem _ ha)]

/-! ## Inserting lines -/

/-- In front of what follows an anchor stands no name character. -/
lemma anchor?_divides {specifier text : List Char} {anchor : Anchor}
    (h : anchor? specifier text = some anchor) :
    ∃ front c, text = front ++ c :: anchor.after ∧ Code.isNameChar c = false := by
  obtain ⟨a, quote, rest, htext, hquote, hrest⟩ := anchor?_ends h
  have hchars : ∀ c ∈ quote :: rest, Code.isNameChar c = false := by
    intro c hc
    rcases List.mem_cons.mp hc with rfl | hc
    · simp only [isImportQuote, Bool.or_eq_true, beq_iff_eq] at hquote
      rcases hquote with rfl | rfl <;> decide
    · rcases hrest c hc with hc | rfl
      · exact Code.isNameChar_of_isBlank (Text.isBlank_of_isIndent hc)
      · decide
  obtain ⟨front, c, hsplit⟩ := (List.eq_nil_or_concat (quote :: rest)).resolve_left (by simp)
  rw [hsplit] at hchars htext
  exact ⟨a ++ front, c, by simp [htext], hchars c (by simp)⟩

/-- The text around the inserted lines. -/
lemma insertAfter_eq {anchor : Anchor} {front : List Char} (list : List Addition) :
    insertAfter anchor list (front ++ anchor.after)
      = front ++ (list.flatMap fun addition => lineEnd (front ++ anchor.after)
          ++ importLine anchor.quote anchor.terminated addition) ++ anchor.after := by
  rw [insertAfter, upTo_append]

/-- A name of the text stays in it. -/
lemma infix_insertAfter {specifier text name : List Char} {anchor : Anchor}
    (hname : IsName name) (h : anchor? specifier text = some anchor) (list : List Addition)
    (hin : name <:+: text) : name <:+: insertAfter anchor list text := by
  obtain ⟨front, c, rfl, hc⟩ := anchor?_divides h
  have hcut : front ++ c :: anchor.after = (front ++ [c]) ++ anchor.after := by simp
  rcases hname.infix_cases hc hin with hin | hin
  · rw [hcut, insertAfter_eq]
    exact hin.trans ⟨[], _, by simp; rfl⟩
  · rw [hcut, insertAfter_eq]
    exact hin.trans (List.suffix_append _ _).isInfix

/-- The symbols of the inserted lines occur in the text. -/
lemma symbol_infix_insertAfter {text symbol : List Char} {anchor : Anchor} {list : List Addition}
    {addition : Addition} (hmem : addition ∈ list)
    (hsymbol : symbol ∈ addition.symbols.map String.toList) :
    symbol <:+: insertAfter anchor list text := by
  have hline : symbol <:+: lineEnd text ++ importLine anchor.quote anchor.terminated addition := by
    refine (infix_commaList hsymbol).trans ?_
    unfold importLine
    exact ⟨lineEnd text ++ "import \x7b ".toList, _, by simp only [List.append_assoc]; rfl⟩
  have hlines := List.infix_of_mem_flatten (List.mem_map_of_mem hmem
    (f := fun addition => lineEnd text ++ importLine anchor.quote anchor.terminated addition))
  rw [insertAfter, List.flatMap_def]
  exact (hline.trans hlines).trans ⟨Text.upTo text anchor.after, anchor.after, rfl⟩

/-- An inserted line has no line feed in it. -/
lemma lineFeed_not_mem_importLine {quote : Char} (hquote : isImportQuote quote = true)
    (terminated : Bool) {addition : Addition}
    (hsymbols : ∀ symbol ∈ addition.symbols.map String.toList, IsName symbol)
    (hspecifier : '\n' ∉ addition.specifier.toList) :
    '\n' ∉ importLine quote terminated addition := by
  have hne : '\n' ≠ quote := by
    rintro rfl
    exact absurd hquote (by decide)
  have hlist : '\n' ∉ commaList (addition.symbols.map String.toList) := by
    intro hmem
    rcases mem_commaList hmem with h | h | ⟨item, hitem, hc⟩
    · exact absurd h (by decide)
    · exact absurd h (by decide)
    · exact (hsymbols item hitem).not_mem (by decide) hc
  have hend : '\n' ∉ (if terminated = true then [';'] else []) := by
    cases terminated <;> simp
  unfold importLine
  simp only [List.mem_append, List.mem_cons, not_or]
  exact ⟨⟨⟨⟨by decide, hlist⟩, by decide⟩, hne, hspecifier⟩, hne, hend⟩

/-- Behind the end of a line there is one line, which is empty. -/
lemma afterLineFeeds_lineEnd (text : List Char) : Text.afterLineFeeds (lineEnd text) = [[]] := by
  unfold lineEnd
  split <;> rfl

/-- **The lines of what is inserted** are the import lines, each with those of the additions behind
it. -/
lemma exists_importLine {quote : Char} {terminated : Bool} {text line : List Char}
    {list : List Addition}
    (hfeed : ∀ addition ∈ list, '\n' ∉ importLine quote terminated addition)
    (h : line ∈ Text.afterLineFeeds (list.flatMap fun addition =>
      lineEnd text ++ importLine quote terminated addition)) :
    ∃ addition ∈ list, ∃ more, line = importLine quote terminated addition ++ more := by
  induction list with
  | nil => simp [Text.afterLineFeeds] at h
  | cons first rest ih =>
    rw [List.flatMap_cons, Text.afterLineFeeds_append, Text.afterLineFeeds_append,
      afterLineFeeds_lineEnd, Text.afterLineFeeds_eq_nil (hfeed first (by simp))] at h
    rcases List.mem_append.mp h with h | h
    · exact ⟨first, by simp, _, by simpa using h⟩
    · obtain ⟨addition, hmem, hline⟩ := ih (fun a ha => hfeed a (List.mem_cons_of_mem _ ha)) h
      exact ⟨addition, List.mem_cons_of_mem _ hmem, hline⟩

/-- Lines are inserted behind the quote of an anchor's module, in the same line and where no handler is
declared. -/
lemma exists_insertAfter_eq {specifier text : List Char} {anchor : Anchor}
    (h : anchor? specifier text = some anchor) (list : List Addition) :
    ∃ a quote rest, text = a ++ (quote :: rest ++ anchor.after) ∧
      insertAfter anchor list text
        = a ++ (quote :: (rest ++ list.flatMap fun addition =>
            lineEnd text ++ importLine anchor.quote anchor.terminated addition) ++ anchor.after) ∧
      Eligibility.isDeclarationChar quote = false ∧ '\n' ∉ quote :: rest := by
  obtain ⟨a, quote, rest, rfl, hquote, hrest⟩ := anchor?_ends h
  refine ⟨a, quote, rest, rfl, ?_, ?_, ?_⟩
  · have hcut : a ++ (quote :: rest ++ anchor.after) = (a ++ quote :: rest) ++ anchor.after := by simp
    rw [hcut, insertAfter_eq]
    simp
  · simp only [isImportQuote, Bool.or_eq_true, beq_iff_eq] at hquote
    rcases hquote with rfl | rfl <;> decide
  · intro hmem
    rcases List.mem_cons.mp hmem with rfl | hmem
    · exact absurd hquote (by decide)
    · exact absurd (hrest _ hmem) (by decide)

/-- **The handler is still exported.** -/
lemma hasGetHandler_insertAfter {specifier text : List Char} {anchor : Anchor}
    (h : anchor? specifier text = some anchor) (list : List Addition)
    (hget : Eligibility.hasGetHandler text = true) :
    Eligibility.hasGetHandler (insertAfter anchor list text) = true := by
  obtain ⟨a, quote, rest, htext, hnew, hdeclaration, hfeed⟩ := exists_insertAfter_eq h list
  rw [htext] at hget
  rw [hnew]
  exact Eligibility.hasGetHandler_replace hdeclaration hfeed hget

/-! ## The stage as a whole -/

/-- What the stage does with a text: it makes the additions it can, and inserts lines for the others
behind the anchor, if there is one. -/
lemma ensure_cases (imports : Settings.Imports) (text : List Char) :
    let extended := extendAll (additions imports text) text
    (extended.2 = [] ∧ (ensure imports text).text = extended.1.text) ∨
    (∃ anchor, anchor? imports.anchor.toList extended.1.text = some anchor ∧
      (ensure imports text).text = insertAfter anchor extended.2 extended.1.text) ∨
    (anchor? imports.anchor.toList extended.1.text = none ∧
      (ensure imports text).text = extended.1.text) := by
  intro extended
  have hpair : extendAll (additions imports text) text = (extended.1, extended.2) := rfl
  by_cases hempty : extended.2.isEmpty = true
  · refine .inl ⟨List.isEmpty_iff.mp hempty, ?_⟩
    rw [ensure, hpair]
    dsimp only
    rw [if_pos hempty]
  · cases hanchor : anchor? imports.anchor.toList extended.1.text with
    | some anchor =>
      refine .inr (.inl ⟨anchor, rfl, ?_⟩)
      rw [ensure, hpair]
      dsimp only
      rw [if_neg hempty, hanchor]
    | none =>
      refine .inr (.inr ⟨rfl, ?_⟩)
      rw [ensure, hpair]
      dsimp only
      rw [if_neg hempty, hanchor]

/-- **An exported handler stays.** -/
lemma hasGetHandler_ensure {imports : Settings.Imports} {text : List Char}
    (hget : Eligibility.hasGetHandler text = true) :
    Eligibility.hasGetHandler (ensure imports text).text = true := by
  have hextended : Eligibility.hasGetHandler
      (extendAll (additions imports text) text).1.text = true :=
    extendAll_keeps (P := fun text => Eligibility.hasGetHandler text = true)
      (fun _ _ _ _ hextend hget => hasGetHandler_extend? hextend hget) hget
  rcases ensure_cases imports text with ⟨-, heq⟩ | ⟨anchor, hanchor, heq⟩ | ⟨-, heq⟩
  · rw [heq]; exact hextended
  · rw [heq]; exact hasGetHandler_insertAfter hanchor _ hextended
  · rw [heq]; exact hextended

/-- What is missing afterwards was missing before, and no list could be extended for it. -/
lemma mem_left_of_mem_missing {imports : Settings.Imports} (himports : Writable imports)
    {text : List Char} {required : Settings.RequiredImport}
    (h : required ∈ missing imports (extendAll (additions imports text) text).1.text) :
    ∃ addition ∈ (extendAll (additions imports text) text).2,
      addition.specifier = required.specifier ∧ required.symbol ∈ addition.symbols := by
  obtain ⟨hmem, habsent⟩ := List.mem_filter.mp h
  rw [Bool.not_eq_true', Bool.eq_false_iff, ne_eq, Text.contains_iff] at habsent
  have hmissing : required ∈ missing imports text := by
    refine List.mem_filter.mpr ⟨hmem, ?_⟩
    rw [Bool.not_eq_true', Bool.eq_false_iff, ne_eq, Text.contains_iff]
    exact fun hin => habsent (infix_extendAll (himports.symbols required hmem) _ hin)
  obtain ⟨addition, haddition, hspec, hsymbol⟩ := exists_addition hmissing
  rcases symbol_infix_extendAll (fun a ha => himports.addition ha) haddition text with
    hin | hleft
  · exact absurd (hin _ (List.mem_map_of_mem hsymbol)) habsent
  · exact ⟨addition, hleft, hspec, hsymbol⟩

/-- A text that the stage has nothing to do with: nothing is missing, or else there is no list to
extend for what is missing, and no anchor. -/
def Settled (imports : Settings.Imports) (text : List Char) : Prop :=
  missing imports text = [] ∨
    anchor? imports.anchor.toList text = none ∧
      ∀ addition ∈ additions imports text, addition.extend? text = none

/-- **Half a success is final.** After the stage nothing is missing, or else there is no list to
extend for what is missing, and no anchor. -/
lemma ensure_settled {imports : Settings.Imports} (himports : Writable imports)
    (text : List Char) : Settled imports (ensure imports text).text := by
  rcases ensure_cases imports text with ⟨hleft, heq⟩ | ⟨anchor, hanchor, heq⟩ | ⟨hanchor, heq⟩
  · left
    rw [heq, List.eq_nil_iff_forall_not_mem]
    intro required hrequired
    obtain ⟨addition, haddition, -, -⟩ := mem_left_of_mem_missing himports hrequired
    rw [hleft] at haddition
    simp at haddition
  · left
    rw [heq, List.eq_nil_iff_forall_not_mem]
    intro required hrequired
    obtain ⟨hmem, habsent⟩ := List.mem_filter.mp hrequired
    rw [Bool.not_eq_true', Bool.eq_false_iff, ne_eq, Text.contains_iff] at habsent
    have hmissing : required ∈ missing imports (extendAll (additions imports text) text).1.text := by
      refine List.mem_filter.mpr ⟨hmem, ?_⟩
      rw [Bool.not_eq_true', Bool.eq_false_iff, ne_eq, Text.contains_iff]
      exact fun hin => habsent (infix_insertAfter (himports.symbols required hmem) hanchor _ hin)
    obtain ⟨addition, haddition, -, hsymbol⟩ := mem_left_of_mem_missing himports hmissing
    exact habsent (symbol_infix_insertAfter haddition (List.mem_map_of_mem hsymbol))
  · right
    rw [heq]
    refine ⟨hanchor, ?_⟩
    intro addition haddition
    -- the addition wants a missing symbol of its module, so one for that module was left over
    obtain ⟨hne, hsymbols⟩ := mem_of_mem_additions haddition
    obtain ⟨symbol, rest, hcons⟩ := List.exists_cons_of_ne_nil hne
    obtain ⟨required, hrequired, -, hspec⟩ := hsymbols symbol (by simp [hcons])
    obtain ⟨left, hleft, hleftSpec, -⟩ := mem_left_of_mem_missing himports hrequired
    have hnone := extend?_eq_none_of_mem_left (fun a ha => himports.addition ha)
      (additions_pairwise imports text) hleft (addition.symbols.map String.toList)
    rw [hleftSpec, hspec] at hnone
    exact hnone

/-- Additions are asked for exactly if something is missing. -/
lemma additions_eq_nil_iff {imports : Settings.Imports} {text : List Char} :
    additions imports text = [] ↔ missing imports text = [] := by
  simp only [List.eq_nil_iff_forall_not_mem]
  constructor
  · intro hnone required hrequired
    obtain ⟨addition, haddition, -, -⟩ := exists_addition hrequired
    exact hnone addition haddition
  · intro hnone addition haddition
    obtain ⟨hne, hsymbols⟩ := mem_of_mem_additions haddition
    obtain ⟨symbol, hsymbol⟩ := List.exists_mem_of_ne_nil _ hne
    obtain ⟨required, hrequired, -, -⟩ := hsymbols symbol hsymbol
    exact hnone required hrequired

/-- On a settled text the stage does nothing, and says at most that there is no anchor. -/
lemma ensure_of_settled {imports : Settings.Imports} {text : List Char} (h : Settled imports text) :
    ensure imports text = ⟨text, if missing imports text = [] then [] else [.noAnchor]⟩ := by
  by_cases hmissing : missing imports text = []
  · rw [ensure, additions_eq_nil_iff.mpr hmissing, if_pos hmissing]
    rfl
  · obtain ⟨hanchor, hnone⟩ := h.resolve_left hmissing
    have hadditions : ¬ (additions imports text).isEmpty = true := by
      rw [List.isEmpty_iff, additions_eq_nil_iff]
      exact hmissing
    rw [ensure, extendAll_of_none hnone, if_neg hmissing]
    dsimp only
    rw [if_neg hadditions, hanchor]
    rfl

/-- **A second run of the stage changes nothing.** -/
lemma ensure_ensure_text {imports : Settings.Imports} (himports : Writable imports)
    (text : List Char) :
    (ensure imports (ensure imports text).text).text = (ensure imports text).text := by
  rw [ensure_of_settled (ensure_settled himports text)]

/-- **The stage is idempotent, and what it leaves alone are the settled texts.** Let the symbols of
the needed imports be names, and their specifiers have no quote and no line feed. Then for every
anchor module and every text the stage ends with a settled text. A second run keeps this text and
takes no step, apart from the note that there is no anchor for what is still missing. The first run
keeps a text exactly if it is settled already. -/
theorem ensure_idempotent {imports : Settings.Imports} (himports : Writable imports)
    (text : List Char) :
    let first := ensure imports text
    Settled imports first.text ∧
      ensure imports first.text
        = ⟨first.text, if missing imports first.text = [] then [] else [.noAnchor]⟩ ∧
      (first.text = text ↔ Settled imports text) := by
  intro first
  have hsettled : Settled imports first.text := ensure_settled himports text
  refine ⟨hsettled, ensure_of_settled hsettled, ?_, ?_⟩
  · intro hsame
    rw [← hsame]
    exact hsettled
  · intro h
    exact congrArg Ensured.text (ensure_of_settled h)

/-- Without an anchor, one of two modules has a list to extend. The other symbol stays missing, and
a second run extends nothing more. -/
theorem ensure_idempotent_half :
    let imports : Settings.Imports := {}
    let text := "import \x7b revalidateTag \x7d from 'next/cache'\n".toList
    let new := "import \x7b revalidateTag, unstable_cache \x7d from 'next/cache'\n".toList
    Writable imports ∧
      ensure imports text
        = ⟨new, [.extended ⟨"next/cache", ["unstable_cache"]⟩, .noAnchor]⟩ ∧
      ensure imports new = ⟨new, [.noAnchor]⟩ := by
  intro imports text new
  have himports : Writable imports := by
    constructor
    · intro required hmem
      rcases List.mem_cons.mp hmem with rfl | hmem
      · exact Code.isName_of_isIdentifier (by decide)
      · obtain rfl := List.mem_singleton.mp hmem
        exact Code.isName_of_isIdentifier (by decide)
    · intro required hmem
      rcases List.mem_cons.mp hmem with rfl | hmem
      · exact plainSpecifier_of_all (by decide)
      · obtain rfl := List.mem_singleton.mp hmem
        exact plainSpecifier_of_all (by decide)
  have hfirst : ensure imports text
      = ⟨new, [.extended ⟨"next/cache", ["unstable_cache"]⟩, .noAnchor]⟩ := by
    rw [show text = _ from String.toList_ofList, show new = _ from String.toList_ofList]
    decide +kernel
  have hmissing : missing imports new ≠ [] := by
    rw [show new = _ from String.toList_ofList]
    decide +kernel
  have hsecond : ∀ new steps, ensure imports text = ⟨new, steps⟩ → missing imports new ≠ [] →
      ensure imports new = ⟨new, [.noAnchor]⟩ := by
    intro new steps hnew hsome
    have hagain := (ensure_idempotent himports text).2.1
    rwa [hnew, if_neg hsome] at hagain
  exact ⟨himports, hfirst, hsecond new _ hfirst hmissing⟩

end CachedRoutes.Import
