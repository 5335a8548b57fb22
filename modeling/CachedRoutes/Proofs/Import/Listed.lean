import CachedRoutes.Proofs.Code.Span
import CachedRoutes.Proofs.Import.Ensure

/-!
# Symbols in brace lists

A symbol that is missing from a file is written into a list between braces. Later edits of the stage
write lists anew and insert lines, and the symbol stays an item of its list.

* **Lists.** `nameList_items`: items that are written with commas and spaces are read back.
* **Items.** `Listed`: the symbol is an item of a list, and only names follow it up to the closing
  brace. `IsListed.extend?` and `IsListed.insertAfter`: it stays one.
* **The stage.** `exists_listed`: what a file has after the stage, and did not have before, was listed.
* **In code.** `Listed.in_code_iff`: comments and quoted texts cover a listed symbol and the brace
  behind it together, or neither of the two.
-/

namespace CachedRoutes.Import

open Code (IsName)

/-! ## Lists -/

/-- Names with a comma and a space between them, and a space at both ends. -/
def spaced (names : List (List Char)) : List Char :=
  ' ' :: commaList names ++ [' ']

/-- The names of two lists with a comma between them are those of each. -/
lemma nameList_append (a b : List Char) :
    nameList (a ++ ',' :: b) = nameList a ++ nameList b := by
  simp [nameList, Text.fields_append_sep]

/-- A text that can stand as an item of a list. -/
structure IsItem (item : List Char) : Prop where
  ne_nil : item ≠ []
  no_comma : ',' ∉ item
  head : ∀ c ∈ item.head?, Text.isBlank c = false
  last : ∀ c ∈ item.getLast?, Text.isBlank c = false

/-- A name is an item. -/
lemma isItem_of_isName {name : List Char} (h : IsName name) : IsItem name := by
  have hblank : ∀ c ∈ name, Text.isBlank c = false := by
    intro c hc
    rw [Bool.eq_false_iff]
    intro hb
    exact h.not_mem (Code.isNameChar_of_isBlank hb) hc
  exact ⟨h.ne_nil, h.not_mem (by decide), fun c hc => hblank c (List.mem_of_head? hc),
    fun c hc => hblank c (List.mem_of_getLast? hc)⟩

/-- More text in front of an item. -/
lemma IsItem.append {item front : List Char} (h : IsItem item) (hcomma : ',' ∉ front)
    (hhead : ∀ c ∈ front.head?, Text.isBlank c = false) : IsItem (front ++ item) := by
  refine ⟨by simp [h.ne_nil], by simp [hcomma, h.no_comma], ?_, ?_⟩
  · cases front with
    | nil => exact h.head
    | cons c front => exact hhead
  · rw [List.getLast?_append_of_ne_nil _ h.ne_nil]
    exact h.last

/-- An item between blanks is listed. -/
lemma IsItem.nameList_eq {item left right : List Char} (h : IsItem item)
    (hleft : ∀ c ∈ left, Text.isBlank c = true) (hright : ∀ c ∈ right, Text.isBlank c = true) :
    nameList (left ++ item ++ right) = [item] := by
  have hcomma : ∀ blanks : List Char, (∀ c ∈ blanks, Text.isBlank c = true) → ',' ∉ blanks :=
    fun blanks hblanks hmem => absurd (hblanks _ hmem) (by decide)
  have hfield : ',' ∉ left ++ item ++ right := by
    simp [hcomma left hleft, hcomma right hright, h.no_comma]
  rw [nameList, Text.fields_of_not_mem hfield, List.map_singleton,
    Text.trim_append hleft hright h.ne_nil h.head h.last]
  simp [h.ne_nil]

/-- The blank between items is a blank. -/
lemma blank_singleton : ∀ c ∈ [' '], Text.isBlank c = true := by
  intro c hc
  obtain rfl := List.mem_singleton.mp hc
  decide

/-- **Items that are written are read back.** -/
lemma nameList_items {items : List (List Char)} (h : ∀ item ∈ items, IsItem item) :
    nameList (spaced items) = items := by
  induction items with
  | nil => decide
  | cons first rest ih =>
    have hfirst := h first (by simp)
    cases rest with
    | nil =>
      rw [spaced, commaList_singleton]
      exact hfirst.nameList_eq blank_singleton blank_singleton
    | cons second rest =>
      have hcut : spaced (first :: second :: rest)
          = ([' '] ++ first ++ []) ++ ',' :: spaced (second :: rest) := by
        simp [spaced, commaList_cons_cons]
      rw [hcut, nameList_append, hfirst.nameList_eq blank_singleton (by simp),
        ih fun item hitem => h item (List.mem_cons_of_mem _ hitem)]
      rfl

/-- So are names. -/
lemma nameList_spaced {names : List (List Char)} (h : ∀ name ∈ names, IsName name) :
    nameList (spaced names) = names :=
  nameList_items fun name hname => isItem_of_isName (h name hname)

/-- What is listed can stand as an item of a list. -/
lemma isItem_of_mem_nameList {names item : List Char} (h : item ∈ nameList names) : IsItem item := by
  simp only [nameList, List.mem_filter, List.mem_map, bne_iff_ne] at h
  obtain ⟨⟨field, hfield, rfl⟩, hne⟩ := h
  obtain ⟨left, right, hsplit, -, -⟩ := trim_split field
  refine ⟨hne, ?_, ?_, ?_⟩
  · intro hcomma
    apply Text.not_mem_of_mem_fields hfield
    rw [hsplit]
    simp [hcomma]
  · -- the start of the trimmed text is the start of the text without leading blanks
    intro c hc
    obtain ⟨-, -, -, hhead⟩ := Text.trimStart_gap field
    apply hhead c
    have hprefix : Text.trim field <+: Text.trimStart field := by
      rw [← List.reverse_suffix, Text.trim, List.reverse_reverse]
      exact List.dropWhile_suffix _
    obtain ⟨more, hmore⟩ := hprefix
    rw [← hmore, List.head?_append_of_ne_nil _ hne]
    exact hc
  · intro c hc
    have hlast := List.head?_dropWhile_not Text.isBlank (Text.trimStart field).reverse
    rw [Text.trim, List.getLast?_reverse] at hc
    rw [hc] at hlast
    simpa using hlast

/-- What stands in front of the first item stands in front of the list. -/
lemma commaList_cons_append (front item : List Char) (rest : List (List Char)) :
    commaList ((front ++ item) :: rest) = front ++ commaList (item :: rest) := by
  cases rest with
  | nil => simp
  | cons second rest => simp [commaList_cons_cons]

/-- An item of a list stands at its start or behind a comma and a space. -/
lemma commaList_append_cons (items : List (List Char)) (item : List Char)
    (rest : List (List Char)) :
    ∃ front, commaList (items ++ item :: rest) = front ++ commaList (item :: rest) ∧
      (front = [] ∨ ∃ before, front = before ++ [',', ' ']) := by
  induction items with
  | nil => exact ⟨[], rfl, .inl rfl⟩
  | cons first items ih =>
    obtain ⟨front, heq, hfront⟩ := ih
    refine ⟨first ++ ',' :: ' ' :: front, ?_, .inr ?_⟩
    · obtain ⟨second, others, hcons⟩ :=
        List.exists_cons_of_ne_nil (show items ++ item :: rest ≠ [] by simp)
      rw [List.cons_append, hcons, commaList_cons_cons, ← hcons, heq]
      simp
    · rcases hfront with rfl | ⟨before, rfl⟩
      · exact ⟨first, rfl⟩
      · exact ⟨first ++ ',' :: ' ' :: before, by simp⟩

/-- A name that stands in a list stands in one of its items. -/
lemma exists_infix_of_commaList {name : List Char} (hname : IsName name)
    {items : List (List Char)} (h : name <:+: commaList items) :
    ∃ item ∈ items, name <:+: item := by
  induction items with
  | nil =>
    rw [commaList_nil, List.infix_nil] at h
    exact absurd h hname.ne_nil
  | cons first rest ih =>
    cases rest with
    | nil => exact ⟨first, by simp, by simpa using h⟩
    | cons second rest =>
      rw [commaList_cons_cons] at h
      rcases hname.infix_cases (by decide) h with h | h
      · exact ⟨first, by simp, h⟩
      · rcases hname.infix_cases (a := []) (by decide) h with h | h
        · exact absurd (List.infix_nil.mp h) hname.ne_nil
        · obtain ⟨item, hitem, hsub⟩ := ih h
          exact ⟨item, List.mem_cons_of_mem _ hitem, hsub⟩

/-- The last item that does not consist of a name alone, and the names behind it. -/
lemma nameList_ends (text : List Char) {item : List Char} (hitem : IsItem item)
    {names : List (List Char)} (hnames : ∀ name ∈ names, IsName name) :
    ∃ items front, nameList (text ++ commaList (item :: names) ++ [' '])
      = items ++ (front ++ item) :: names := by
  -- by the length of the text, one field after the other
  induction hn : text.length using Nat.strong_induction_on generalizing text with
  | _ n ih =>
    by_cases hmem : ',' ∈ text
    · obtain ⟨a, b, rfl, ha⟩ := List.eq_append_cons_of_mem hmem
      obtain ⟨items, front, heq⟩ := ih b.length (by simp [← hn]; omega) b rfl
      refine ⟨nameList a ++ items, front, ?_⟩
      rw [List.append_assoc, List.append_assoc, List.cons_append, nameList_append,
        ← List.append_assoc b, heq, List.append_assoc]
    · obtain ⟨gap, hgap, hblank, hhead⟩ := Text.trimStart_gap text
      have hcomma : ',' ∉ Text.trimStart text := by
        intro hin
        rw [hgap] at hmem
        simp [hin] at hmem
      have hfirst := hitem.append hcomma hhead
      refine ⟨[], Text.trimStart text, ?_⟩
      cases names with
      | nil =>
        have hcut : text ++ commaList [item] ++ [' ']
            = gap ++ (Text.trimStart text ++ item) ++ [' '] := by
          conv_lhs => rw [hgap]
          simp
        rw [hcut, hfirst.nameList_eq hblank blank_singleton]
        rfl
      | cons second names =>
        have hcut : text ++ commaList (item :: second :: names) ++ [' ']
            = (gap ++ (Text.trimStart text ++ item) ++ []) ++ ',' :: spaced (second :: names) := by
          conv_lhs => rw [hgap]
          simp [spaced, commaList_cons_cons]
        rw [hcut, nameList_append, hfirst.nameList_eq hblank (by simp), nameList_spaced hnames]
        rfl

/-! ## Items -/

/-- How a text is cut at a symbol that is an item of a list in braces: the text up to the space in
front of the symbol, the names behind it, and the text behind the closing brace. -/
structure Listed (symbol text left : List Char) (names : List (List Char)) (closed : List Char) :
    Prop where
  /-- The parts make up the text. -/
  text_eq : text = left ++ spaced (symbol :: names) ++ '\x7d' :: closed
  /-- A comma stands in front of the item, or the opening brace. -/
  item : ∃ front c, left = front ++ [c] ∧ (c = ',' ∨ c = '\x7b')
  /-- Only names stand behind it. -/
  names : ∀ name ∈ names, IsName name

/-- The symbol is an item of a list in braces of the text. -/
def IsListed (symbol text : List Char) : Prop :=
  ∃ left names closed, Listed symbol text left names closed

/-- An item behind a comma or an opening brace. -/
lemma isListed_of_item (front : List Char) {c : Char} (hc : c = ',' ∨ c = '\x7b')
    (symbol : List Char) {names : List (List Char)} (hnames : ∀ name ∈ names, IsName name)
    (closed : List Char) :
    IsListed symbol (front ++ c :: spaced (symbol :: names) ++ '\x7d' :: closed) :=
  ⟨front ++ [c], names, closed, by simp, ⟨front, c, rfl, hc⟩, hnames⟩

/-- A character of a list of names is a comma, a space or a name character. -/
lemma not_mem_spaced {names : List (List Char)} (h : ∀ name ∈ names, IsName name) {c : Char}
    (hname : Code.isNameChar c = false) (hcomma : c ≠ ',') (hspace : c ≠ ' ') :
    c ∉ spaced names := by
  intro hmem
  simp only [spaced, List.cons_append, List.mem_cons, List.mem_append, List.mem_nil_iff,
    or_false] at hmem
  rcases hmem with hmem | hmem | hmem
  · exact hspace hmem
  · rcases mem_commaList hmem with hmem | hmem | ⟨item, hitem, hmem⟩
    · exact hcomma hmem
    · exact hspace hmem
    · exact (h item hitem).not_mem hname hmem
  · exact hspace hmem

/-- A name in front of names, all of them names. -/
lemma forall_cons_isName {symbol : List Char} (hsymbol : IsName symbol) {names : List (List Char)}
    (hnames : ∀ name ∈ names, IsName name) : ∀ name ∈ symbol :: names, IsName name := by
  intro name hmem
  rcases List.mem_cons.mp hmem with rfl | hmem
  · exact hsymbol
  · exact hnames name hmem

/-- An item of a list that is written between braces. -/
lemma isListed_of_spaced (front : List Char) (items : List (List Char)) (symbol : List Char)
    {names : List (List Char)} (hnames : ∀ name ∈ names, IsName name) (closed : List Char) :
    IsListed symbol (front ++ '\x7b' :: spaced (items ++ symbol :: names) ++ '\x7d' :: closed) := by
  obtain ⟨before, heq, rfl | ⟨before, rfl⟩⟩ := commaList_append_cons items symbol names
  · simpa [spaced, heq] using isListed_of_item front (.inr rfl) symbol hnames closed
  · simpa [spaced, heq] using
      isListed_of_item (front ++ '\x7b' :: ' ' :: before) (.inl rfl) symbol hnames closed

/-! ## Extending lists -/

section Extend

variable {specifier text new symbol : List Char} {symbols : List (List Char)}

/-- An added symbol is listed. -/
lemma isListed_of_extend? (hsymbols : ∀ symbol ∈ symbols, IsName symbol)
    (h : extend? specifier symbols text = some new) (hsymbol : symbol ∈ symbols) :
    IsListed symbol new := by
  obtain ⟨start, opening, names, closed, hlist, rfl⟩ := extend?_eq_some h
  obtain ⟨front, hfront⟩ := hlist.opening_ends
  obtain ⟨before, behind, rfl⟩ := List.append_of_mem hsymbol
  have hbehind : ∀ name ∈ behind, IsName name :=
    fun name hname => hsymbols name (by simp [hname])
  have hlisted := isListed_of_spaced front (nameList names ++ before) symbol hbehind closed
  rw [hfront]
  simpa [extendedList, spaced] using hlisted

/-- A list of names is extended at its end. -/
lemma extendedList_spaced {names : List (List Char)} (hnames : ∀ name ∈ names, IsName name)
    (symbols : List (List Char)) : extendedList (spaced names) symbols = spaced (names ++ symbols) := by
  rw [extendedList, nameList_spaced hnames]
  rfl

/-- So is one with anything else in front of the names, as long as a comma is in between. -/
lemma extendedList_comma (list : List Char) {names : List (List Char)}
    (hnames : ∀ name ∈ names, IsName name) (symbols : List (List Char)) :
    extendedList (list ++ ',' :: spaced names) symbols
      = spaced (nameList list ++ (names ++ symbols)) := by
  rw [extendedList, nameList_append, nameList_spaced hnames, List.append_assoc]
  rfl

/-- A brace in front of the names is part of an item, and it stays where it is. -/
lemma extendedList_brace (list : List Char) (hsymbol : IsName symbol) {names : List (List Char)}
    (hnames : ∀ name ∈ names, IsName name) (symbols : List (List Char)) :
    ∃ lead, extendedList (list ++ '\x7b' :: spaced (symbol :: names)) symbols
      = lead ++ '\x7b' :: spaced (symbol :: (names ++ symbols)) := by
  have hhead : ∀ c ∈ ['\x7b', ' '].head?, Text.isBlank c = false := by
    intro c hc
    obtain rfl := Option.some.inj hc
    decide
  have hitem : IsItem (['\x7b', ' '] ++ symbol) :=
    (isItem_of_isName hsymbol).append (by decide) hhead
  obtain ⟨items, lead, heq⟩ := nameList_ends list hitem hnames
  obtain ⟨start, hstart, -⟩ := commaList_append_cons items (lead ++ (['\x7b', ' '] ++ symbol))
    (names ++ symbols)
  have hlist : list ++ '\x7b' :: spaced (symbol :: names)
      = list ++ commaList ((['\x7b', ' '] ++ symbol) :: names) ++ [' '] := by
    rw [commaList_cons_append]
    simp [spaced]
  have hitems : items ++ (lead ++ (['\x7b', ' '] ++ symbol)) :: names ++ symbols
      = items ++ (lead ++ (['\x7b', ' '] ++ symbol)) :: (names ++ symbols) := by simp
  refine ⟨' ' :: start ++ lead, ?_⟩
  rw [extendedList, hlist, heq, hitems, hstart, commaList_cons_append, commaList_cons_append]
  simp [spaced]

/-- An item of the list that is written anew is an item of the new list. -/
lemma isListed_of_same_list {front left list closed : List Char} {names : List (List Char)}
    (hsymbol : IsName symbol) (hnames : ∀ name ∈ names, IsName name)
    (hsymbols : ∀ symbol ∈ symbols, IsName symbol)
    (hitem : ∃ before c, left = before ++ [c] ∧ (c = ',' ∨ c = '\x7b'))
    (hsame : left ++ spaced (symbol :: names) = front ++ '\x7b' :: list) :
    IsListed symbol (front ++ '\x7b' :: extendedList list symbols ++ '\x7d' :: closed) := by
  have hcons := forall_cons_isName hsymbol hnames
  have hall : ∀ name ∈ names ++ symbols, IsName name := by
    intro name hmem
    rcases List.mem_append.mp hmem with hmem | hmem
    · exact hnames name hmem
    · exact hsymbols name hmem
  -- the list starts at its opening brace, which is no part of the names
  obtain ⟨more, hleft, rfl⟩ := Text.exists_of_append_eq
    (not_mem_spaced hcons (by decide) (by decide) (by decide)) hsame
  obtain ⟨before, c, rfl, hc⟩ := hitem
  rcases List.eq_nil_or_concat more with rfl | ⟨more, d, rfl⟩
  · rw [List.nil_append, extendedList_spaced hcons]
    exact isListed_of_spaced front [] symbol hall closed
  · have hlast : before ++ [c] = (front ++ '\x7b' :: more) ++ [d] := by simpa using hleft
    obtain rfl : c = d := by simpa using (List.append_inj' hlast rfl).2
    rw [List.concat_append]
    rcases hc with rfl | rfl
    · rw [extendedList_comma more hcons]
      exact isListed_of_spaced front _ symbol hall closed
    · obtain ⟨lead, hlead⟩ := extendedList_brace more hsymbol hnames symbols
      rw [hlead]
      simpa using isListed_of_item (front ++ '\x7b' :: lead) (.inr rfl) symbol hall closed

/-- **A listed symbol stays listed when a list is extended.** -/
lemma IsListed.extend? (hsymbol : IsName symbol) (hsymbols : ∀ symbol ∈ symbols, IsName symbol)
    (h : Import.extend? specifier symbols text = some new) (hlisted : IsListed symbol text) :
    IsListed symbol new := by
  obtain ⟨start, opening, list, closed, hlist, rfl⟩ := extend?_eq_some h
  obtain ⟨front, hfront⟩ := hlist.opening_ends
  obtain ⟨left, names, closed', htext, hitem, hnames⟩ := hlisted
  have hspaced : '\x7d' ∉ spaced (symbol :: names) :=
    not_mem_spaced (forall_cons_isName hsymbol hnames) (by decide) (by decide) (by decide)
  rw [hlist.text_eq, ← List.append_assoc] at htext
  rw [hfront] at htext ⊢
  -- the two lists are one, or they are closed one behind the other
  rcases Text.closed_cases hspaced hlist.no_brace htext.symm with
    ⟨hsame, -⟩ | ⟨more, hlead, rfl⟩ | ⟨more, rfl, rfl⟩
  · have hsame' : left ++ spaced (symbol :: names) = front ++ '\x7b' :: list := by simpa using hsame
    have hnew : IsListed symbol (front ++ '\x7b' :: extendedList list symbols ++ '\x7d' :: closed) :=
      isListed_of_same_list hsymbol hnames hsymbols hitem hsame'
    simpa using hnew
  · obtain ⟨before, c, rfl, hc⟩ := hitem
    rw [hlead]
    simpa using isListed_of_item before hc symbol hnames
      (more ++ (extendedList list symbols ++ '\x7d' :: closed))
  · obtain ⟨before, c, hbefore, hc⟩ := hitem
    have hlead : front ++ '\x7b' :: list ++ '\x7d' :: more = before ++ [c] := by simpa using hbefore
    rcases List.eq_nil_or_concat more with rfl | ⟨more, d, rfl⟩
    · obtain rfl : '\x7d' = c := by
        simpa using (List.append_inj' hlead rfl).2
      exact absurd hc (by decide)
    · have hlead' : (front ++ '\x7b' :: list ++ '\x7d' :: more) ++ [d] = before ++ [c] := by
        simpa using hlead
      obtain rfl : d = c := by
        simpa using (List.append_inj' hlead' rfl).2
      simpa using isListed_of_item (front ++ '\x7b' :: extendedList list symbols ++ '\x7d' :: more) hc
        symbol hnames closed'

/-- A name of the new text was there, or is part of an added symbol. -/
lemma infix_of_infix_extend? {name : List Char} (hname : IsName name)
    (h : extend? specifier symbols text = some new) (hin : name <:+: new) :
    name <:+: text ∨ ∃ symbol ∈ symbols, name <:+: symbol := by
  obtain ⟨start, opening, names, closed, hlist, rfl⟩ := extend?_eq_some h
  obtain ⟨front, hfront⟩ := hlist.opening_ends
  have hcut : ∀ list, start ++ opening ++ (list ++ '\x7d' :: closed)
      = front ++ '\x7b' :: (list ++ '\x7d' :: closed) := by
    intro list
    rw [hfront]
    simp
  rw [hlist.text_eq, hcut]
  rw [hcut] at hin
  rcases hname.infix_cases (by decide) hin with hin | hin
  · exact .inl (hin.trans ⟨[], _, rfl⟩)
  rcases hname.infix_cases (by decide) hin with hin | hin
  · have hblank : ∀ c ∈ [' '], Code.isNameChar c = false :=
      fun c hc => Code.isNameChar_of_isBlank (blank_singleton c hc)
    obtain ⟨item, hitem, hsub⟩ := exists_infix_of_commaList hname
      (hname.infix_of_infix_append hblank hblank hin)
    rcases List.mem_append.mp hitem with hitem | hitem
    · exact .inl ((hsub.trans (infix_of_mem_nameList hitem)).trans
        ⟨front ++ ['\x7b'], '\x7d' :: closed, by simp⟩)
    · exact .inr ⟨item, hitem, hsub⟩
  · exact .inl (hin.trans ⟨front ++ '\x7b' :: names ++ ['\x7d'], [], by simp⟩)

end Extend

/-! ## Inserting lines -/

/-- **A listed symbol stays listed when lines are inserted.** They start behind a quote, with spaces,
tabs and a semicolon in between at most, and there is no such place in a list of names. -/
lemma IsListed.insertAfter {specifier text symbol : List Char} {anchor : Anchor}
    (hsymbol : IsName symbol) (h : anchor? specifier text = some anchor) (list : List Addition)
    (hlisted : IsListed symbol text) : IsListed symbol (insertAfter anchor list text) := by
  obtain ⟨a, quote, rest, hanchor, hquote, hrest⟩ := anchor?_ends h
  obtain ⟨left, names, closed, htext, ⟨front, c, rfl, hc⟩, hnames⟩ := hlisted
  have hcons := forall_cons_isName hsymbol hnames
  have hcut : text = (a ++ quote :: rest) ++ anchor.after := by simpa using hanchor
  have hspaced : quote ∉ c :: spaced (symbol :: names) := by
    simp only [isImportQuote, Bool.or_eq_true, beq_iff_eq] at hquote
    rw [List.mem_cons, not_or]
    rcases hquote with rfl | rfl
    · exact ⟨by rcases hc with rfl | rfl <;> decide,
        not_mem_spaced hcons (by decide) (by decide) (by decide)⟩
    · exact ⟨by rcases hc with rfl | rfl <;> decide,
        not_mem_spaced hcons (by decide) (by decide) (by decide)⟩
  -- the text up to the anchor does not end inside of the list
  have houtside : ∀ part, part <+: spaced (symbol :: names) →
      front ++ c :: part ≠ a ++ quote :: rest := by
    intro part hpart hends
    have hno : quote ∉ c :: part := by
      intro hmem
      rcases List.mem_cons.mp hmem with rfl | hmem
      · exact hspaced (by simp)
      · exact hspaced (List.mem_cons_of_mem _ (hpart.subset hmem))
    obtain ⟨more, -, rfl⟩ := Text.exists_of_append_eq hno hends
    rcases hrest c (by simp) with hindent | rfl
    · rcases hc with rfl | rfl <;> exact absurd hindent (by decide)
    · exact absurd hc (by decide)
  have hwhole : front ++ c :: (spaced (symbol :: names) ++ '\x7d' :: closed)
      = (a ++ quote :: rest) ++ anchor.after := by
    rw [← hcut, htext]
    simp
  obtain ⟨lines, hlines⟩ : ∃ lines, Import.insertAfter anchor list text
      = (a ++ quote :: rest) ++ lines ++ anchor.after :=
    ⟨_, by rw [hcut]; exact insertAfter_eq list⟩
  rw [hlines]
  rcases List.append_eq_append_iff.mp hwhole with ⟨s, hs, hafter⟩ | ⟨s, rfl, hafter⟩
  · cases s with
    | nil =>
      rw [← show _ = anchor.after from hafter]
      simpa using isListed_of_item (a ++ quote :: rest ++ lines) hc symbol hnames closed
    | cons d s =>
      obtain ⟨rfl, hbehind⟩ := List.cons.inj hafter
      rcases List.append_eq_append_iff.mp hbehind with ⟨t, rfl, ht⟩ | ⟨t, ht, -⟩
      · cases t with
        | nil => exact absurd (by simpa using hs.symm) (houtside _ (List.prefix_refl _))
        | cons e t =>
          obtain ⟨rfl, rfl⟩ := List.cons.inj ht
          rw [hs]
          simpa using isListed_of_item front hc symbol hnames (t ++ lines ++ anchor.after)
      · exact absurd hs.symm (houtside s ⟨t, ht.symm⟩)
  · rw [hafter]
    simpa using isListed_of_item (a ++ quote :: rest ++ lines ++ s) hc symbol hnames closed

/-- An inserted line has its symbols in braces. -/
lemma importLine_eq (quote : Char) (terminated : Bool) (addition : Addition) :
    importLine quote terminated addition
      = "import ".toList ++ '\x7b' :: spaced (addition.symbols.map String.toList) ++ '\x7d' ::
        (" from ".toList ++ quote :: addition.specifier.toList
          ++ quote :: (if terminated then [';'] else [])) := by
  have hopening : "import \x7b ".toList = "import ".toList ++ ['\x7b', ' '] := by decide
  have hclosing : " \x7d from ".toList = [' ', '\x7d'] ++ " from ".toList := by decide
  unfold importLine spaced
  generalize "import ".toList = opening at hopening ⊢
  generalize " from ".toList = closing at hclosing ⊢
  rw [hopening, hclosing]
  simp only [List.append_assoc, List.cons_append, List.nil_append]

/-- The symbols of the inserted lines are listed. -/
lemma isListed_of_insertAfter {text symbol : List Char} {anchor : Anchor} {list : List Addition}
    {addition : Addition} (hmem : addition ∈ list)
    (hsymbols : ∀ symbol ∈ addition.symbols.map String.toList, IsName symbol)
    (hsymbol : symbol ∈ addition.symbols.map String.toList) :
    IsListed symbol (Import.insertAfter anchor list text) := by
  obtain ⟨earlier, later, rfl⟩ := List.append_of_mem hmem
  obtain ⟨before, behind, heq⟩ := List.append_of_mem hsymbol
  have hbehind : ∀ name ∈ behind, IsName name :=
    fun name hname => hsymbols name (by simp [heq, hname])
  rw [Import.insertAfter, List.flatMap_append, List.flatMap_cons, importLine_eq, heq]
  simpa only [List.append_assoc, List.cons_append] using
    isListed_of_spaced (Text.upTo text anchor.after
      ++ (earlier.flatMap fun addition =>
        lineEnd text ++ importLine anchor.quote anchor.terminated addition)
      ++ lineEnd text ++ "import ".toList) before symbol hbehind
      (" from ".toList ++ anchor.quote :: addition.specifier.toList
      ++ anchor.quote :: (if anchor.terminated then [';'] else [])
      ++ (later.flatMap fun addition =>
        lineEnd text ++ importLine anchor.quote anchor.terminated addition) ++ anchor.after)

/-! ## The stage -/

section Stage

variable {imports : Settings.Imports}
  (hsymbols : ∀ required ∈ imports.required, IsName required.symbol.toList)
include hsymbols

/-- Without an anchor, a name that is new in the text is part of a symbol that was added. -/
lemma exists_listed_of_extendAll {text name : List Char} (hname : IsName name)
    (habsent : ¬ name <:+: text)
    (hin : name <:+: (extendAll (additions imports text) text).1.text) :
    ∃ declared ∈ imports.required, name <:+: declared.symbol.toList ∧
      IsListed declared.symbol.toList (extendAll (additions imports text) text).1.text := by
  refine extendAll_keeps (P := fun new => name <:+: new → ∃ declared ∈ imports.required,
    name <:+: declared.symbol.toList ∧ IsListed declared.symbol.toList new) ?_
    (fun hin => absurd hin habsent) hin
  intro addition hmem text' new hextend hbefore hin
  have hadded := isName_of_mem_additions hsymbols hmem
  rcases infix_of_infix_extend? hname hextend hin with hin | ⟨symbol, hsymbol, hsub⟩
  · obtain ⟨declared, hdeclared, hpart, hlisted⟩ := hbefore hin
    exact ⟨declared, hdeclared, hpart,
      hlisted.extend? (hsymbols declared hdeclared) hadded hextend⟩
  · have hlisted := isListed_of_extend? hadded hextend hsymbol
    obtain ⟨string, hstring, rfl⟩ := List.mem_map.mp hsymbol
    obtain ⟨declared, hdeclared, rfl, -⟩ := (mem_of_mem_additions hmem).2 string hstring
    exact ⟨declared, (List.mem_filter.mp hdeclared).1, hsub, hlisted⟩

/-- **What is new after the stage was listed.** A needed symbol that the text did not have, and has
afterwards, is an item of a list there. Without an anchor it may be so only as a part of another
needed symbol. -/
lemma exists_listed {text : List Char} {required : Settings.RequiredImport}
    (hmem : required ∈ imports.required) (habsent : ¬ required.symbol.toList <:+: text)
    (hin : required.symbol.toList <:+: (ensure imports text).text) :
    ∃ declared ∈ imports.required, required.symbol.toList <:+: declared.symbol.toList ∧
      (declared = required ∨ hasAnchor imports (ensure imports text).text = false) ∧
      IsListed declared.symbol.toList (ensure imports text).text := by
  have hname := hsymbols required hmem
  have hmissing : required ∈ missing imports text := by
    refine List.mem_filter.mpr ⟨hmem, ?_⟩
    rw [Bool.not_eq_true', Bool.eq_false_iff, ne_eq, Text.contains_iff]
    exact habsent
  obtain ⟨addition, haddition, -, hsymbol⟩ := exists_addition hmissing
  have hsymbol' : required.symbol.toList ∈ addition.symbols.map String.toList :=
    List.mem_map_of_mem hsymbol
  have hmade : IsListed required.symbol.toList (extendAll (additions imports text) text).1.text ∨
      addition ∈ (extendAll (additions imports text) text).2 := by
    refine extendAll_made (P := IsListed required.symbol.toList) haddition ?_ ?_ text
    · intro text' new hextend
      exact isListed_of_extend? (isName_of_mem_additions hsymbols haddition) hextend hsymbol'
    · intro other hother text' new hextend hlisted
      exact hlisted.extend? hname (isName_of_mem_additions hsymbols hother) hextend
  rcases ensure_cases imports text with ⟨hleft, heq⟩ | ⟨anchor, hanchor, heq⟩ | ⟨hanchor, heq⟩
  · rw [heq]
    rcases hmade with hlisted | hover
    · exact ⟨required, hmem, List.infix_refl _, .inl rfl, hlisted⟩
    · rw [hleft] at hover
      simp at hover
  · refine ⟨required, hmem, List.infix_refl _, .inl rfl, ?_⟩
    rw [heq]
    rcases hmade with hlisted | hover
    · exact hlisted.insertAfter hname hanchor _
    · exact isListed_of_insertAfter hover (isName_of_mem_additions hsymbols haddition) hsymbol'
  · rw [heq] at hin ⊢
    obtain ⟨declared, hdeclared, hpart, hlisted⟩ :=
      exists_listed_of_extendAll hsymbols hname habsent hin
    refine ⟨declared, hdeclared, hpart, .inr ?_, hlisted⟩
    rw [hasAnchor, hanchor]
    rfl

end Stage

/-! ## In code -/

/-- A slash or a quote is no character of a name. -/
lemma isNameChar_of_isInertMark {c : Char} (h : Code.isInertMark c = true) : Code.isNameChar c = false := by
  simp only [Code.isInertMark, Code.isQuote, Bool.or_eq_true, beq_iff_eq] at h
  rcases h with rfl | (rfl | rfl) | rfl <;> decide

/-- Neither marks nor line feeds stand in a list of names. -/
lemma quiet_of_mem_spaced {names : List (List Char)} (h : ∀ name ∈ names, IsName name) {c : Char}
    (hc : c ∈ spaced names ++ ['\x7d']) : Code.isInertMark c = false ∧ c ≠ '\n' := by
  rcases List.mem_append.mp hc with hc | hc
  · constructor
    · rw [Bool.eq_false_iff]
      intro hmark
      refine not_mem_spaced h (isNameChar_of_isInertMark hmark) ?_ ?_ hc
      · rintro rfl
        exact absurd hmark (by decide)
      · rintro rfl
        exact absurd hmark (by decide)
    · rintro rfl
      exact not_mem_spaced h (by decide) (by decide) (by decide) hc
  · obtain rfl := List.mem_singleton.mp hc
    decide

namespace Listed

variable {symbol text left closed : List Char} {names : List (List Char)}

/-- What stands around a listed symbol. -/
lemma cut (h : Listed symbol text left names closed) :
    text = (left ++ [' ']) ++ (symbol ++ (commaList ([] :: names) ++ ' ' :: '\x7d' :: closed)) := by
  have hcomma := commaList_cons_append symbol [] names
  rw [List.append_nil] at hcomma
  rw [h.text_eq, spaced, hcomma]
  simp

/-- A span covers a character of a listed symbol exactly if it covers the closing brace. -/
lemma covers_eq (hsymbol : IsName symbol) (h : Listed symbol text left names closed)
    {span : Code.Span} (hspan : span ∈ Code.spans text) {i : Nat} (hi : i < symbol.length) :
    span.covers (left.length + 1 + i) = span.covers (left ++ spaced (symbol :: names)).length := by
  have hcons := forall_cons_isName hsymbol h.names
  have hlength : symbol.length + 2 ≤ (spaced (symbol :: names)).length := by
    have hcomma := commaList_cons_append symbol [] names
    rw [List.append_nil] at hcomma
    rw [spaced, hcomma]
    simp only [List.length_append, List.length_cons, List.length_nil]
    omega
  rw [List.length_append]
  refine Code.covers_eq_of_quiet ?_ hspan (by omega)
  intro j hfirst hlast
  have htext : text = left ++ ((spaced (symbol :: names) ++ ['\x7d']) ++ closed) := by
    rw [h.text_eq]
    simp
  have hbound : j - left.length < (spaced (symbol :: names) ++ ['\x7d']).length := by
    rw [List.length_append, List.length_singleton]
    omega
  refine ⟨(spaced (symbol :: names) ++ ['\x7d'])[j - left.length], ?_,
    quiet_of_mem_spaced hcons (List.getElem_mem hbound)⟩
  rw [htext, List.getElem?_append_right (by omega), List.getElem?_append_left hbound,
    List.getElem?_eq_getElem hbound]

/-- **A listed symbol is in code exactly if its closing brace is.** -/
lemma in_code_iff (hsymbol : IsName symbol) (h : Listed symbol text left names closed) :
    Code.InCodeAt symbol text (left.length + 1) ↔ ∀ span ∈ Code.spans text,
      span.covers (left ++ spaced (symbol :: names)).length = false := by
  have hleft : (left ++ [' ']).length = left.length + 1 := by simp
  constructor
  · intro hcode span hspan
    have hpos := List.length_pos_iff.mpr hsymbol.ne_nil
    rw [← h.covers_eq hsymbol hspan hpos]
    exact hcode.in_code 0 hpos span hspan
  · intro hbrace
    refine ⟨?_, ?_, ?_, ?_⟩
    · rw [h.cut, ← hleft, List.drop_left]
      exact List.prefix_append _ _
    · rw [h.cut, ← hleft, List.take_left, List.getLast?_concat]
      decide
    · rw [h.cut, ← hleft, ← List.drop_drop, List.drop_left, List.drop_left]
      have hspace : Code.isNameChar ' ' = false := by decide
      have hcomma : Code.isNameChar ',' = false := by decide
      cases names with
      | nil => simp [hspace]
      | cons second names => simp [commaList_cons_cons, hcomma]
    · intro i hi span hspan
      rw [h.covers_eq hsymbol hspan hi]
      exact hbrace span hspan

end Listed

end CachedRoutes.Import
