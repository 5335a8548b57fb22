import CachedRoutes.Proofs.Import.Listed
import Mathlib.Algebra.GroupWithZero.Nat
import Mathlib.Data.List.Nodup

/-!
# Counting items

The import stage writes lists anew, and it writes new ones. Here the items of the text are counted: what
stands between two of the characters `,`, `{` and `}`, without the blanks around it.

* **Cuts** (`listings_append`): at each of these characters the count falls apart, and a quote keeps
  what stands next to it from being a name (`listings_quote`).
* **Edits** (`listings_extend?`, `listings_insertAfter`): the items of the text stay, and the symbols
  that are added come on top.
* **The stage** (`listings_ensure`): in the end there is one item more for each missing symbol, and none
  for other names.
-/

namespace CachedRoutes.Import

open Code (IsName)

/-- The characters around the items of a list. -/
def isListMark (c : Char) : Bool :=
  c == ',' || c == '\x7b' || c == '\x7d'

/-- How often the name is an item of the text. -/
def listings (name text : List Char) : Nat :=
  ((text.splitOnP isListMark).map Text.trim).count name

/-- The symbols of the additions, in order. -/
def added (list : List Addition) : List (List Char) :=
  list.flatMap fun addition => addition.symbols.map String.toList

/-- The symbols of the first addition come first. -/
lemma added_cons (first : Addition) (rest : List Addition) :
    added (first :: rest) = first.symbols.map String.toList ++ added rest := rfl

/-! ## Cuts -/

/-- Listings in two texts with a mark between them are counted in each. -/
lemma listings_append (name a : List Char) {d : Char} (hd : isListMark d = true) (b : List Char) :
    listings name (a ++ d :: b) = listings name a + listings name b := by
  rw [listings, List.splitOnP_append_cons _ _ hd, List.map_append, List.count_append]
  rfl

/-- A text without list marks is one item. -/
lemma listings_single (name : List Char) {text : List Char}
    (h : ∀ c ∈ text, isListMark c = false) :
    listings name text = if Text.trim text = name then 1 else 0 := by
  rw [listings, List.splitOnP_eq_singleton h, List.map_singleton, List.count_singleton]
  simp

/-- A text has no list mark, or it has a first one. -/
lemma listMark_cases (text : List Char) :
    (∀ c ∈ text, isListMark c = false) ∨
      ∃ a d b, text = a ++ d :: b ∧ (∀ c ∈ a, isListMark c = false) ∧ isListMark d = true := by
  have hsplit := List.takeWhile_append_dropWhile (p := fun c => !isListMark c) (l := text)
  have hno : ∀ c ∈ text.takeWhile fun c => !isListMark c, isListMark c = false := by
    intro c hc
    simpa using List.mem_takeWhile_imp hc
  cases hrest : text.dropWhile fun c => !isListMark c with
  | nil =>
    rw [hrest, List.append_nil] at hsplit
    exact .inl (hsplit ▸ hno)
  | cons d b =>
    have hhead := List.head?_dropWhile_not (fun c => !isListMark c) text
    rw [hrest] at hhead hsplit
    exact .inr ⟨_, d, b, hsplit.symm, hno, by simpa using hhead⟩

/-- A text is read from one list mark to the next. -/
lemma listMark_induction {P : List Char → Prop}
    (single : ∀ text, (∀ c ∈ text, isListMark c = false) → P text)
    (cut : ∀ a d b, (∀ c ∈ a, isListMark c = false) → isListMark d = true → P b → P (a ++ d :: b))
    (text : List Char) : P text := by
  -- by the length of the text, since each step leaves what stands behind the first mark
  induction hn : text.length using Nat.strong_induction_on generalizing text with
  | _ n ih =>
    rcases listMark_cases text with hno | ⟨a, d, b, rfl, ha, hd⟩
    · exact single text hno
    · rw [List.length_append, List.length_cons] at hn
      exact cut a d b ha hd (ih b.length (by omega) b rfl)

/-- A name that does not occur in a text is no item of it. -/
lemma listings_eq_zero {name text : List Char} (h : ¬ name <:+: text) : listings name text = 0 := by
  have hsingle : ∀ text : List Char, (∀ c ∈ text, isListMark c = false) → ¬ name <:+: text →
      listings name text = 0 := by
    intro text hno habsent
    rw [listings_single name hno, if_neg]
    rintro rfl
    obtain ⟨left, right, hsplit, -, -⟩ := trim_split text
    exact habsent ⟨left, right, hsplit.symm⟩
  induction text using listMark_induction with
  | single text hno => exact hsingle text hno h
  | cut a d b hno hd ih =>
    have hfirst : ¬ name <:+: a := fun hin => h (hin.trans (List.prefix_append _ _).isInfix)
    have hrest : ¬ name <:+: b := fun hin =>
      h (hin.trans ((List.suffix_cons d b).trans (List.suffix_append a _)).isInfix)
    rw [listings_append name a hd, hsingle a hno hfirst, ih hrest]

/-- Blanks are no marks of lists. -/
lemma isListMark_of_isBlank {c : Char} (h : Text.isBlank c = true) : isListMark c = false := by
  rw [Bool.eq_false_iff]
  intro hmark
  simp only [isListMark, Bool.or_eq_true, beq_iff_eq] at hmark
  rcases hmark with (rfl | rfl) | rfl <;> exact absurd h (by decide)

/-- Blanks around a text do not count. -/
lemma listings_blanks (name : List Char) {left right : List Char}
    (hleft : ∀ c ∈ left, Text.isBlank c = true) (hright : ∀ c ∈ right, Text.isBlank c = true)
    (text : List Char) : listings name (left ++ text ++ right) = listings name text := by
  have hsingle : ∀ left right text : List Char, (∀ c ∈ left, Text.isBlank c = true) →
      (∀ c ∈ right, Text.isBlank c = true) → (∀ c ∈ text, isListMark c = false) →
      listings name (left ++ text ++ right) = listings name text := by
    intro left right text hleft hright hno
    have hall : ∀ c ∈ left ++ text ++ right, isListMark c = false := by
      intro c hc
      simp only [List.mem_append] at hc
      rcases hc with (hc | hc) | hc
      · exact isListMark_of_isBlank (hleft c hc)
      · exact hno c hc
      · exact isListMark_of_isBlank (hright c hc)
    rw [listings_single name hall, listings_single name hno, Text.trim_blanks hleft hright]
  induction text using listMark_induction generalizing left with
  | single text hno => exact hsingle left right text hleft hright hno
  | cut a d b hno hd ih =>
    have hfirst := hsingle left [] a hleft (by simp) hno
    have hrest : listings name ([] ++ b ++ right) = listings name b := ih (by simp)
    rw [List.append_nil] at hfirst
    rw [List.nil_append] at hrest
    rw [← List.append_assoc, List.append_assoc, List.cons_append, listings_append name _ hd,
      listings_append name _ hd, hfirst, hrest]

/-- The quotes of specifiers are no marks of lists. -/
lemma isListMark_of_isImportQuote {quote : Char} (h : isImportQuote quote = true) :
    isListMark quote = false := by
  simp only [isImportQuote, Bool.or_eq_true, beq_iff_eq] at h
  rcases h with rfl | rfl <;> decide

/-- A name is an item of itself, and of no other name. -/
lemma listings_name (name : List Char) {symbol : List Char} (hsymbol : IsName symbol) :
    listings name symbol = [symbol].count name := by
  have hno : ∀ c ∈ symbol, isListMark c = false := by
    intro c hc
    rw [Bool.eq_false_iff]
    intro hmark
    simp only [isListMark, Bool.or_eq_true, beq_iff_eq] at hmark
    rcases hmark with (rfl | rfl) | rfl <;> exact hsymbol.not_mem (by decide) hc
  have hitem := isItem_of_isName hsymbol
  have htrim : Text.trim ([] ++ symbol ++ []) = symbol :=
    Text.trim_append (by simp) (by simp) hitem.ne_nil hitem.head hitem.last
  rw [List.nil_append, List.append_nil] at htrim
  rw [listings_single name hno, htrim, List.count_singleton]
  simp

section Names

variable {name : List Char} (hname : IsName name)
include hname

/-- In an empty text nothing is listed. -/
lemma listings_nil : listings name [] = 0 := by
  rw [listings_single name (by simp), if_neg]
  exact Ne.symm hname.ne_nil

/-- Where a quote stands next to it, a name is no item. -/
lemma listings_hidden {hidden : List Char} (hno : ∀ c ∈ hidden, isListMark c = false) {quote : Char}
    (hquote : isImportQuote quote = true) (hmem : quote ∈ hidden) : listings name hidden = 0 := by
  rw [listings_single name hno, if_neg]
  intro htrim
  obtain ⟨left, right, hsplit, hleft, hright⟩ := trim_split hidden
  have hblank : ∀ c, Text.isBlank c = true → c ≠ quote := by
    rintro c hc rfl
    rw [isBlank_of_isImportQuote hquote] at hc
    exact Bool.noConfusion hc
  have hnot : quote ∉ name := by
    simp only [isImportQuote, Bool.or_eq_true, beq_iff_eq] at hquote
    rcases hquote with rfl | rfl
    · exact hname.not_mem (by decide)
    · exact hname.not_mem (by decide)
  rw [hsplit, htrim] at hmem
  simp only [List.mem_append] at hmem
  rcases hmem with (hmem | hmem) | hmem
  · exact hblank quote (hleft quote hmem) rfl
  · exact hnot hmem
  · exact hblank quote (hright quote hmem) rfl

/-- All that counts behind a quote without list marks around it is what follows. -/
lemma listings_behind {hidden : List Char} (hno : ∀ c ∈ hidden, isListMark c = false) {quote : Char}
    (hquote : isImportQuote quote = true) (hmem : quote ∈ hidden) (rest : List Char) :
    listings name (hidden ++ rest) = listings name ('\x27' :: rest) := by
  have hall : ∀ a hidden : List Char, (∀ c ∈ hidden, isListMark c = false) →
      (∀ c ∈ a, isListMark c = false) → ∀ c ∈ hidden ++ a, isListMark c = false := by
    intro a hidden hno ha c hc
    rcases List.mem_append.mp hc with hc | hc
    · exact hno c hc
    · exact ha c hc
  have hbar : ∀ c ∈ ['\x27'], isListMark c = false := by simp [isListMark]
  have hzero : ∀ a : List Char, (∀ c ∈ a, isListMark c = false) →
      listings name (hidden ++ a) = 0 ∧ listings name (['\x27'] ++ a) = 0 := by
    intro a ha
    exact ⟨listings_hidden hname (hall a hidden hno ha) hquote (by simp [hmem]),
      listings_hidden hname (hall a _ hbar ha) (show isImportQuote '\x27' = true from rfl)
        (by simp)⟩
  rw [← List.singleton_append]
  rcases listMark_cases rest with hrest | ⟨a, d, b, rfl, ha, hd⟩
  · rw [(hzero rest hrest).1, (hzero rest hrest).2]
  · rw [← List.append_assoc, ← List.append_assoc, listings_append name _ hd,
      listings_append name _ hd, (hzero a ha).1, (hzero a ha).2]

/-- A quote falls to both sides. -/
lemma listings_quote {quote : Char} (hquote : isImportQuote quote = true) (u v : List Char) :
    listings name (u ++ quote :: v) = listings name (u ++ [quote]) + listings name (quote :: v) := by
  have hbar : ∀ c ∈ [quote], isListMark c = false := by
    intro c hc
    rw [List.mem_singleton.mp hc]
    exact isListMark_of_isImportQuote hquote
  induction u using listMark_induction with
  | single u hu =>
    have hno : ∀ c ∈ u ++ [quote], isListMark c = false := by
      intro c hc
      rcases List.mem_append.mp hc with hc | hc
      · exact hu c hc
      · exact hbar c hc
    have hwhole := listings_behind hname hno hquote (by simp) v
    have hright := listings_behind hname hbar hquote (by simp) v
    rw [List.append_assoc, List.singleton_append] at hwhole
    rw [List.singleton_append] at hright
    rw [hwhole, hright, listings_hidden hname hno hquote (by simp), Nat.zero_add]
  | cut a d b _ hd ih =>
    rw [List.append_assoc, List.append_assoc, List.cons_append, List.cons_append,
      listings_append name _ hd, listings_append name _ hd, ih, Nat.add_assoc]

/-! ## Extending lists -/

/-- Listings in a list are counted in its items. -/
lemma listings_commaList (items : List (List Char)) :
    listings name (commaList items) = (items.map (listings name)).sum := by
  induction items with
  | nil => exact listings_nil hname
  | cons first rest ih =>
    cases rest with
    | nil => simp
    | cons second rest =>
      have hspace : listings name ([' '] ++ commaList (second :: rest) ++ [])
          = listings name (commaList (second :: rest)) :=
        listings_blanks name blank_singleton (by simp) _
      rw [List.append_nil, List.singleton_append] at hspace
      rw [commaList_cons_cons, listings_append name _ (by decide), hspace, ih]
      rfl

omit hname in
/-- A text has the items of its fields. -/
lemma listings_fields (text : List Char) :
    ((Text.fields ',' text).map (listings name)).sum = listings name text := by
  -- by the length of the text, one field after the other
  induction hn : text.length using Nat.strong_induction_on generalizing text with
  | _ n ih =>
    by_cases hmem : ',' ∈ text
    · obtain ⟨a, b, rfl, ha⟩ := List.eq_append_cons_of_mem hmem
      rw [Text.fields_append ha, List.map_cons, List.sum_cons,
        ih b.length (by simp [← hn]; omega) b rfl, listings_append name _ (by decide)]
    · rw [Text.fields_of_not_mem hmem]
      simp

omit hname in
/-- Blanks at the ends do not matter to what is listed. -/
lemma listings_trim (text : List Char) : listings name (Text.trim text) = listings name text := by
  obtain ⟨left, right, hsplit, hleft, hright⟩ := trim_split text
  conv_rhs => rw [hsplit]
  exact (listings_blanks name hleft hright _).symm

/-- A brace list has the items of the listed names. -/
lemma listings_nameList (names : List Char) :
    ((nameList names).map (listings name)).sum = listings name names := by
  rw [← listings_fields names, nameList]
  induction Text.fields ',' names with
  | nil => rfl
  | cons field fields ih =>
    rw [List.map_cons, List.map_cons, List.sum_cons, ← ih, ← listings_trim field]
    by_cases hempty : Text.trim field = []
    · simp [hempty, listings_nil hname]
    · simp [hempty]

omit hname in
/-- A name is listed as often as it is among the symbols. -/
lemma listings_names {symbols : List (List Char)} (h : ∀ symbol ∈ symbols, IsName symbol) :
    (symbols.map (listings name)).sum = symbols.count name := by
  induction symbols with
  | nil => rfl
  | cons first rest ih =>
    rw [List.map_cons, List.sum_cons, listings_name name (h first (by simp)),
      ih fun symbol hmem => h symbol (List.mem_cons_of_mem _ hmem), ← List.count_append]
    rfl

/-- The items of a list between blanks. -/
lemma listings_spaced {symbols : List (List Char)} (h : ∀ symbol ∈ symbols, IsName symbol) :
    listings name (spaced symbols) = symbols.count name := by
  have hblanks := listings_blanks name blank_singleton blank_singleton (commaList symbols)
  rw [List.singleton_append] at hblanks
  rw [spaced, hblanks, listings_commaList hname, listings_names h]

/-- **Extending a list adds the symbols to its items.** -/
lemma listings_extend? {specifier text new : List Char} {symbols : List (List Char)}
    (hsymbols : ∀ symbol ∈ symbols, IsName symbol) (h : extend? specifier symbols text = some new) :
    listings name new = listings name text + symbols.count name := by
  obtain ⟨start, opening, names, closed, hlist, rfl⟩ := extend?_eq_some h
  obtain ⟨front, hfront⟩ := hlist.opening_ends
  have hparts : ∀ list, listings name (start ++ opening ++ (list ++ '\x7d' :: closed))
      = listings name front + (listings name list + listings name closed) := by
    intro list
    rw [hfront, List.append_assoc, List.singleton_append, listings_append name _ (by decide),
      listings_append name _ (by decide)]
  have hnew : listings name (extendedList names symbols)
      = listings name names + symbols.count name := by
    have hblanks := listings_blanks name blank_singleton blank_singleton
      (commaList (nameList names ++ symbols))
    rw [List.singleton_append] at hblanks
    rw [extendedList, hblanks, listings_commaList hname, List.map_append, List.sum_append,
      listings_nameList hname, listings_names hsymbols]
  rw [hlist.text_eq, hparts, hparts, hnew]
  omega

/-! ## Inserting lines -/

/-- **Each inserted line has its symbols as items.** What stands in front of the first one has a quote
without a list mark behind it, and so has every line. -/
lemma listings_lines {quote : Char} (hquote : isImportQuote quote = true) (terminated : Bool)
    {lineFeed : List Char} (hfeed : ∀ c ∈ lineFeed, isListMark c = false) {list : List Addition}
    (hsymbols : ∀ addition ∈ list, ∀ symbol ∈ addition.symbols.map String.toList, IsName symbol)
    (hspecifiers : ∀ addition ∈ list, ∀ c ∈ addition.specifier.toList, isListMark c = false)
    {hidden : List Char} (hno : ∀ c ∈ hidden, isListMark c = false)
    {bar : Char} (hbar : isImportQuote bar = true) (hmem : bar ∈ hidden) (rest : List Char) :
    listings name (hidden ++ ((list.flatMap fun addition =>
        lineFeed ++ importLine quote terminated addition) ++ rest))
      = listings name (hidden ++ rest) + (added list).count name := by
  induction list generalizing hidden bar with
  | nil => rfl
  | cons first others ih =>
    have himport : ∀ c ∈ "import ".toList, isListMark c = false := eq_false_of_all rfl
    have hfrom : ∀ c ∈ " from ".toList, isListMark c = false := eq_false_of_all rfl
    have hend : ∀ c ∈ (if terminated then [';'] else []), isListMark c = false := by
      cases terminated <;> exact eq_false_of_all rfl
    have hlead : ∀ c ∈ hidden ++ (lineFeed ++ "import ".toList), isListMark c = false := by
      intro c hc
      simp only [List.mem_append] at hc
      rcases hc with hc | hc | hc
      · exact hno c hc
      · exact hfeed c hc
      · exact himport c hc
    have htail : ∀ c ∈ " from ".toList ++ quote :: first.specifier.toList
        ++ quote :: (if terminated then [';'] else []), isListMark c = false := by
      intro c hc
      simp only [List.mem_append, List.mem_cons] at hc
      rcases hc with (hc | rfl | hc) | rfl | hc
      · exact hfrom c hc
      · exact isListMark_of_isImportQuote hquote
      · exact hspecifiers first (by simp) c hc
      · exact isListMark_of_isImportQuote hquote
      · exact hend c hc
    have hline : hidden ++ (((first :: others).flatMap fun addition =>
          lineFeed ++ importLine quote terminated addition) ++ rest)
        = (hidden ++ (lineFeed ++ "import ".toList)) ++ '\x7b' ::
          (spaced (first.symbols.map String.toList) ++ '\x7d' ::
            ((" from ".toList ++ quote :: first.specifier.toList
              ++ quote :: (if terminated then [';'] else []))
              ++ ((others.flatMap fun addition =>
                lineFeed ++ importLine quote terminated addition) ++ rest))) := by
      rw [List.flatMap_cons, importLine_eq]
      simp only [List.append_assoc, List.cons_append]
    rw [hline, listings_append name _ (by decide), listings_append name _ (by decide),
      listings_hidden hname hlead hbar (by simp [hmem]),
      listings_spaced hname (hsymbols first (by simp)),
      ih (fun addition h => hsymbols addition (List.mem_cons_of_mem _ h))
        (fun addition h => hspecifiers addition (List.mem_cons_of_mem _ h)) htail hquote (by simp),
      listings_behind hname htail hquote (by simp),
      listings_behind hname hno hbar hmem, added_cons, List.count_append]
    omega

/-- **Inserting lines adds their symbols to the items.** -/
lemma listings_insertAfter {specifier text : List Char} {anchor : Anchor}
    (h : anchor? specifier text = some anchor) {list : List Addition}
    (hsymbols : ∀ addition ∈ list, ∀ symbol ∈ addition.symbols.map String.toList, IsName symbol)
    (hspecifiers : ∀ addition ∈ list, ∀ c ∈ addition.specifier.toList, isListMark c = false) :
    listings name (insertAfter anchor list text) = listings name text + (added list).count name := by
  obtain ⟨a, quote, rest, rfl, hquote, hrest⟩ := anchor?_ends h
  have hhidden : ∀ c ∈ quote :: rest, isListMark c = false := by
    intro c hc
    rcases List.mem_cons.mp hc with rfl | hc
    · exact isListMark_of_isImportQuote hquote
    · rcases hrest c hc with hc | rfl
      · exact isListMark_of_isBlank (Text.isBlank_of_isIndent hc)
      · decide
  have hfeed : ∀ c ∈ lineEnd (a ++ quote :: rest ++ anchor.after), isListMark c = false := by
    unfold lineEnd
    split <;> exact eq_false_of_all rfl
  have hcut : a ++ (quote :: rest ++ anchor.after) = (a ++ quote :: rest) ++ anchor.after := by simp
  have hlines := listings_lines hname (anchor?_quote h) anchor.terminated hfeed hsymbols hspecifiers
    hhidden hquote (by simp) anchor.after
  rw [hcut, insertAfter_eq]
  simp only [List.append_assoc, List.cons_append] at hlines ⊢
  rw [listings_quote hname hquote a (rest ++ (_ ++ anchor.after)), hlines,
    listings_quote hname hquote a (rest ++ anchor.after), Nat.add_assoc]

/-! ## The stage -/

/-- Every addition is made to a list or left over. -/
lemma listings_extendAll {list : List Addition}
    (hsymbols : ∀ addition ∈ list, ∀ symbol ∈ addition.symbols.map String.toList, IsName symbol)
    (text : List Char) :
    listings name (extendAll list text).1.text + (added (extendAll list text).2).count name
      = listings name text + (added list).count name := by
  induction list generalizing text with
  | nil => rfl
  | cons first rest ih =>
    have hrest := ih fun addition hmem => hsymbols addition (List.mem_cons_of_mem _ hmem)
    rw [extendAll, added_cons, List.count_append]
    split
    · rename_i extended hextended
      have hfirst := listings_extend? hname (hsymbols first (by simp)) hextended
      have hlater := hrest extended
      dsimp only
      omega
    · have hlater := hrest text
      dsimp only
      rw [added_cons, List.count_append]
      omega

/-- **The stage adds the symbols of the additions to the items,** if there is an anchor for those that
no list takes. -/
lemma listings_ensure {imports : Settings.Imports}
    (hsymbols : ∀ required ∈ imports.required, IsName required.symbol.toList)
    (hspecifiers : ∀ required ∈ imports.required, ∀ c ∈ required.specifier.toList,
      isListMark c = false) {text : List Char}
    (hanchor : (anchor? imports.anchor.toList
      (extendAll (additions imports text) text).1.text).isSome = true) :
    listings name (ensure imports text).text
      = listings name text + (added (additions imports text)).count name := by
  have hnames : ∀ addition ∈ additions imports text,
      ∀ symbol ∈ addition.symbols.map String.toList, IsName symbol :=
    fun _ hmem => isName_of_mem_additions hsymbols hmem
  have hmodules : ∀ addition ∈ additions imports text, ∀ c ∈ addition.specifier.toList,
      isListMark c = false := by
    intro addition hmem
    obtain ⟨required, hrequired, hspecifier⟩ := exists_required_of_mem_additions hmem
    rw [← hspecifier]
    exact hspecifiers required hrequired
  have hextended := listings_extendAll hname hnames text
  rcases ensure_cases imports text with ⟨hleft, heq⟩ | ⟨anchor, hsome, heq⟩ | ⟨hnone, -⟩
  · rw [heq, ← hextended, hleft]
    rfl
  · have hleft := left_subset (additions imports text) text
    rw [heq, ← hextended, listings_insertAfter hname hsome (fun a ha => hnames a (hleft ha))
      fun a ha => hmodules a (hleft ha)]
  · rw [hnone] at hanchor
    exact absurd hanchor (by simp)

end Names

/-- The symbols that an addition asks for are the missing ones of its module. -/
lemma symbols_of_mem_additions {imports : Settings.Imports} {text : List Char} {addition : Addition}
    (h : addition ∈ additions imports text) :
    addition.symbols
      = ((missing imports text).filter (·.specifier == addition.specifier)).map (·.symbol) := by
  simp only [additions, List.mem_filter, List.mem_map] at h
  obtain ⟨⟨specifier, -, rfl⟩, -⟩ := h
  rfl

/-- **Each missing symbol is added once, and nothing else is,** if no symbol is needed twice. -/
lemma count_added {imports : Settings.Imports} (hdistinct : (imports.required.map (·.symbol)).Nodup)
    (text : List Char) (name : String) :
    (added (additions imports text)).count name.toList
      = if ∃ required ∈ missing imports text, required.symbol = name then 1 else 0 := by
  have hinjective : Function.Injective String.toList := fun _ _ => String.toList_inj.mp
  have hnodup : (added (additions imports text)).Nodup := by
    apply List.nodup_flatMap.mpr
    constructor
    · intro addition hmem
      rw [symbols_of_mem_additions hmem]
      apply List.Nodup.map hinjective
      exact ((List.filter_sublist.trans List.filter_sublist).map _).nodup hdistinct
    · apply (additions_pairwise imports text).imp_of_mem
      intro a b ha hb hne symbol hin hin'
      obtain ⟨first, hfirst, rfl⟩ := List.mem_map.mp hin
      obtain ⟨second, hsecond, hsame⟩ := List.mem_map.mp hin'
      obtain rfl := hinjective hsame
      -- the same symbol comes from one needed import, which has one module
      obtain ⟨left, hleft, hleftSymbol, hleftModule⟩ := (mem_of_mem_additions ha).2 _ hfirst
      obtain ⟨right, hright, hrightSymbol, hrightModule⟩ := (mem_of_mem_additions hb).2 _ hsecond
      have hone : left = right := List.inj_on_of_nodup_map hdistinct (List.mem_filter.mp hleft).1
        (List.mem_filter.mp hright).1 (hleftSymbol.trans hrightSymbol.symm)
      exact hne (by rw [← hleftModule, ← hrightModule, hone])
  have hmem : name.toList ∈ added (additions imports text) ↔
      ∃ required ∈ missing imports text, required.symbol = name := by
    simp only [added, List.mem_flatMap, List.mem_map]
    constructor
    · rintro ⟨addition, haddition, symbol, hsymbol, hsame⟩
      obtain rfl := hinjective hsame
      obtain ⟨required, hrequired, hsymbol, -⟩ := (mem_of_mem_additions haddition).2 _ hsymbol
      exact ⟨required, hrequired, hsymbol⟩
    · rintro ⟨required, hrequired, rfl⟩
      obtain ⟨addition, haddition, -, hsymbol⟩ := exists_addition hrequired
      exact ⟨addition, haddition, _, hsymbol, rfl⟩
  rw [hnodup.count]
  simp only [hmem]

end CachedRoutes.Import
