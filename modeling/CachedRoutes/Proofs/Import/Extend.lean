import CachedRoutes.Import.Ensure
import CachedRoutes.Proofs.Code.Name
import CachedRoutes.Proofs.Eligibility.Handler
import CachedRoutes.Proofs.Import.Statement

/-!
# Adding to a named import

Names are added to a brace list by writing the list anew, so this edit drops blanks and empty items
that stood between the braces. This module says what it keeps.

* **Names.** `infix_extend?`: a name that occurs in the text still occurs in it, and
  `symbol_infix_extend?`: the added symbols do.
* **Statements.** `ListAt.extended`: the statement stays a named import from its module, and
  `ListAt.named_line`: all other named imports keep their lists.
* **Other modules.** `extend?_eq_none_of_extend?`: a module without a list to extend has none after
  another module's list was extended.
* **The handler.** `hasGetHandler_extend?`.
-/

namespace CachedRoutes.Import

open Code (IsName isNameChar)

/-! ## Brace lists -/

/-- A name of a text stands in one of its fields. -/
lemma infix_field {name text : List Char} (hname : IsName name) (sep : Char)
    (hsep : isNameChar sep = false) (h : name <:+: text) :
    ∃ field ∈ Text.fields sep text, name <:+: field := by
  -- by the length of the text, one field after the other
  induction hn : text.length using Nat.strong_induction_on generalizing text with
  | _ n ih =>
    by_cases hmem : sep ∈ text
    · obtain ⟨a, b, rfl, ha⟩ := List.eq_append_cons_of_mem hmem
      rw [Text.fields_append ha]
      rcases hname.infix_cases hsep h with h | h
      · exact ⟨a, by simp, h⟩
      · obtain ⟨field, hfield, hsub⟩ := ih b.length (by simp [← hn]; omega) h rfl
        exact ⟨field, by simp [hfield], hsub⟩
    · rw [Text.fields_of_not_mem hmem]
      exact ⟨text, by simp, h⟩

/-- Trimming takes blanks from both ends. -/
lemma trim_split (text : List Char) : ∃ left right, text = left ++ Text.trim text ++ right ∧
    (∀ c ∈ left, Text.isBlank c = true) ∧ ∀ c ∈ right, Text.isBlank c = true := by
  obtain ⟨left, htext, hleft, -⟩ := Text.trimStart_gap text
  refine ⟨left, ((Text.trimStart text).reverse.takeWhile Text.isBlank).reverse, ?_, hleft, ?_⟩
  · have h := List.takeWhile_append_dropWhile (p := Text.isBlank) (l := (Text.trimStart text).reverse)
    have h' := congrArg List.reverse h
    rw [List.reverse_append, List.reverse_reverse] at h'
    rw [List.append_assoc, Text.trim, h', ← htext]
  · intro c hc
    exact List.mem_takeWhile_imp (List.mem_reverse.mp hc)

/-- A name between the braces stands in one of the listed names. -/
lemma infix_nameList {name names : List Char} (hname : IsName name)
    (h : name <:+: names) : ∃ item ∈ nameList names, name <:+: item := by
  obtain ⟨field, hfield, hsub⟩ := infix_field hname ',' (by decide) h
  obtain ⟨left, right, hsplit, hleft, hright⟩ := trim_split field
  have htrim : name <:+: Text.trim field := by
    rw [hsplit] at hsub
    exact hname.infix_of_infix_append (fun c hc => Code.isNameChar_of_isBlank (hleft c hc))
      (fun c hc => Code.isNameChar_of_isBlank (hright c hc)) hsub
  refine ⟨Text.trim field, ?_, htrim⟩
  simp only [nameList, List.mem_filter, List.mem_map, bne_iff_ne]
  refine ⟨⟨field, hfield, rfl⟩, ?_⟩
  intro hnil
  rw [hnil, List.infix_nil] at htrim
  exact hname.ne_nil htrim

/-- Listed names stand between the braces. -/
lemma infix_of_mem_nameList {names item : List Char} (h : item ∈ nameList names) :
    item <:+: names := by
  simp only [nameList, List.mem_filter, List.mem_map] at h
  obtain ⟨⟨field, hfield, rfl⟩, -⟩ := h
  obtain ⟨left, right, hsplit, -, -⟩ := trim_split field
  have htrim : Text.trim field <:+: field := ⟨left, right, hsplit.symm⟩
  exact htrim.trans (Text.infix_of_mem_fields hfield)

/-- No items make an empty list. -/
@[simp] lemma commaList_nil : commaList [] = [] := rfl

/-- One item is the whole list. -/
@[simp] lemma commaList_singleton (item : List Char) : commaList [item] = item := by
  simp [commaList, List.intercalate]

/-- Between two items there are a comma and a blank. -/
lemma commaList_cons_cons (first second : List Char) (rest : List (List Char)) :
    commaList (first :: second :: rest) = first ++ ',' :: ' ' :: commaList (second :: rest) := by
  simp [commaList, List.intercalate]

/-- Each item stands in the list. -/
lemma infix_commaList {items : List (List Char)} {item : List Char} (h : item ∈ items) :
    item <:+: commaList items := by
  induction items with
  | nil => simp at h
  | cons first rest ih =>
    cases rest with
    | nil =>
      obtain rfl := List.mem_singleton.mp h
      simp
    | cons second rest =>
      rw [commaList_cons_cons]
      rcases List.mem_cons.mp h with rfl | h
      · exact (List.prefix_append _ _).isInfix
      · exact (ih h).trans ⟨first ++ [',', ' '], [], by simp⟩

/-- A character of a comma list is a comma, a space or one of an item. -/
lemma mem_commaList {items : List (List Char)} {c : Char} (h : c ∈ commaList items) :
    c = ',' ∨ c = ' ' ∨ ∃ item ∈ items, c ∈ item := by
  induction items with
  | nil => simp at h
  | cons first rest ih =>
    cases rest with
    | nil => exact .inr (.inr ⟨first, by simp, by simpa using h⟩)
    | cons second rest =>
      rw [commaList_cons_cons, List.mem_append, List.mem_cons, List.mem_cons] at h
      rcases h with h | rfl | rfl | h
      · exact .inr (.inr ⟨first, by simp, h⟩)
      · exact .inl rfl
      · exact .inr (.inl rfl)
      · rcases ih h with h | h | ⟨item, hitem, hc⟩
        · exact .inl h
        · exact .inr (.inl h)
        · exact .inr (.inr ⟨item, List.mem_cons_of_mem _ hitem, hc⟩)

/-! ## The edit -/

/-- How a text is cut at the brace list of a named import: what stands in front of the statement,
the statement up to its opening brace, the list, and the text behind the closing brace. -/
structure ListAt (specifier text start opening names closed : List Char) : Prop where
  /-- The parts make up the text. -/
  text_eq : text = start ++ opening ++ (names ++ '\x7d' :: closed)
  /-- The statement starts a line. -/
  line_start : start = [] ∨ ∃ before, start = before ++ ['\n']
  /-- Only the word `import`, indented, leads up to the brace. -/
  opening_eq : ∃ indent gap, opening = indent ++ "import".toList ++ gap ++ ['\x7b'] ∧
    (∀ c ∈ indent, Text.isIndent c = true) ∧ ∀ c ∈ gap, Text.isBlank c = true
  /-- The list ends at the first closing brace. -/
  no_brace : '\x7d' ∉ names
  /-- The list stands on one line. -/
  no_lineFeed : '\n' ∉ names
  /-- The module follows. -/
  clause : (fromClause? specifier (Text.trimStart closed)).isSome = true

/-- A line that starts a named import, as a cut of the text. -/
lemma listAt_of_namedAt? {specifier text line : List Char} {named : Named}
    (hline : line ∈ Text.lineStarts text) (hnamed : namedAt? specifier line = some named) :
    ∃ start opening closed, ListAt specifier text start opening named.names closed ∧
      named.after = '\x7d' :: closed ∧ text = start ++ line := by
  obtain ⟨indent, gap, closed, rfl, hafter, hindent, hgap, hbrace, hfeed, hclause⟩ :=
    namedAt?_eq_some_iff.mp hnamed
  obtain ⟨start, rfl, hstart⟩ := Text.exists_front_of_mem_lineStarts hline
  refine ⟨start, indent ++ "import".toList ++ gap ++ ['\x7b'], closed, ?_, hafter, rfl⟩
  exact ⟨by simp, hstart, ⟨indent, gap, rfl, hindent, hgap⟩, hbrace, hfeed, hclause⟩

/-- The first named import from a module, as a cut of the text. -/
lemma listAt_of_named? {specifier text : List Char} {named : Named}
    (h : named? specifier text = some named) :
    ∃ start opening closed, ListAt specifier text start opening named.names closed ∧
      named.after = '\x7d' :: closed := by
  obtain ⟨line, hline, hnamed⟩ := List.exists_of_findSome?_eq_some h
  obtain ⟨start, opening, closed, hlist, hafter, -⟩ := listAt_of_namedAt? hline hnamed
  exact ⟨start, opening, closed, hlist, hafter⟩

/-- What stands in front of the end of a text. -/
lemma upTo_append (a b : List Char) : Text.upTo (a ++ b) b = a := by
  simp [Text.upTo]

/-- The new text between the braces. -/
def extendedList (names : List Char) (symbols : List (List Char)) : List Char :=
  ' ' :: commaList (nameList names ++ symbols) ++ [' ']

/-- Extending replaces the brace list and nothing else. -/
lemma extend?_eq_some {specifier text new : List Char} {symbols : List (List Char)}
    (h : extend? specifier symbols text = some new) :
    ∃ start opening names closed, ListAt specifier text start opening names closed ∧
      new = start ++ opening ++ (extendedList names symbols ++ '\x7d' :: closed) := by
  unfold extend? at h
  split at h
  · simp at h
  · rename_i named hnamed
    dsimp only at h
    split at h
    · simp at h
    · obtain ⟨start, opening, closed, hlist, hafter⟩ := listAt_of_named? hnamed
      refine ⟨start, opening, named.names, closed, hlist, ?_⟩
      rw [hafter, hlist.text_eq, upTo_append] at h
      rw [← Option.some.inj h]
      simp [extendedList]

/-- No list is extended exactly if none is found, or it is empty. -/
lemma extend?_eq_none_iff {specifier text : List Char} {symbols : List (List Char)} :
    extend? specifier symbols text = none ↔
      ∀ named, named? specifier text = some named → nameList named.names = [] := by
  unfold extend?
  cases hnamed : named? specifier text with
  | none => simp
  | some named => by_cases hl : nameList named.names = [] <;> simp [hl]

/-- What is new in the extended list consists of names, commas and spaces. -/
lemma not_mem_extendedList {names : List Char} {symbols : List (List Char)} {c : Char}
    (hnames : c ∉ names) (hsymbols : ∀ symbol ∈ symbols, IsName symbol)
    (hname : isNameChar c = false) (hcomma : c ≠ ',') (hspace : c ≠ ' ') :
    c ∉ extendedList names symbols := by
  intro hmem
  simp only [extendedList, List.cons_append, List.mem_cons, List.mem_append, List.mem_nil_iff,
    or_false] at hmem
  have hlist : c ∈ commaList (nameList names ++ symbols) := by
    rcases hmem with h | h | h
    · exact absurd h hspace
    · exact h
    · exact absurd h hspace
  rcases mem_commaList hlist with h | h | ⟨item, hitem, hc⟩
  · exact hcomma h
  · exact hspace h
  · rcases List.mem_append.mp hitem with hitem | hitem
    · exact hnames ((infix_of_mem_nameList hitem).subset hc)
    · exact (hsymbols item hitem).not_mem hname hc

/-! ## What the edit keeps -/

/-- The opening of a named import ends with its brace. -/
lemma ListAt.opening_ends {specifier text start opening names closed : List Char}
    (h : ListAt specifier text start opening names closed) :
    ∃ front, start ++ opening = front ++ ['\x7b'] := by
  obtain ⟨indent, gap, rfl, -, -⟩ := h.opening_eq
  exact ⟨start ++ indent ++ "import".toList ++ gap, by simp⟩

/-- **The added symbols occur in the new text.** -/
lemma symbol_infix_extend? {specifier text new symbol : List Char} {symbols : List (List Char)}
    (h : extend? specifier symbols text = some new) (hsymbol : symbol ∈ symbols) :
    symbol <:+: new := by
  obtain ⟨start, opening, names, closed, -, rfl⟩ := extend?_eq_some h
  have hlist : symbol <:+: commaList (nameList names ++ symbols) :=
    infix_commaList (List.mem_append_right _ hsymbol)
  refine hlist.trans ⟨start ++ opening ++ [' '], ' ' :: '\x7d' :: closed, ?_⟩
  simp [extendedList]

/-- **A name of the text is a name of the new text.** It does not reach over a brace, and between
the braces it stands in one of the listed names, which are all kept. -/
lemma infix_extend? {specifier text new name : List Char} {symbols : List (List Char)}
    (hname : IsName name) (h : extend? specifier symbols text = some new) (hin : name <:+: text) :
    name <:+: new := by
  obtain ⟨start, opening, names, closed, hlist, rfl⟩ := extend?_eq_some h
  obtain ⟨front, hfront⟩ := hlist.opening_ends
  rw [hlist.text_eq, hfront] at hin
  rw [hfront]
  have hin' : name <:+: front ++ '\x7b' :: (names ++ '\x7d' :: closed) := by simpa using hin
  rcases hname.infix_cases (by decide) hin' with hin | hin
  · exact hin.trans ⟨[], _, by simp; rfl⟩
  rcases hname.infix_cases (by decide) hin with hin | hin
  · obtain ⟨item, hitem, hsub⟩ := infix_nameList hname hin
    have hitem' : item <:+: commaList (nameList names ++ symbols) :=
      infix_commaList (List.mem_append_left _ hitem)
    refine (hsub.trans hitem').trans ⟨front ++ ['\x7b', ' '], ' ' :: '\x7d' :: closed, ?_⟩
    simp [extendedList]
  · exact hin.trans ⟨front ++ ['\x7b'] ++ extendedList names symbols ++ ['\x7d'], [], by simp⟩

/-- **The handler is still exported.** -/
lemma hasGetHandler_extend? {specifier text new : List Char} {symbols : List (List Char)}
    (h : extend? specifier symbols text = some new)
    (hget : Eligibility.hasGetHandler text = true) : Eligibility.hasGetHandler new = true := by
  obtain ⟨start, opening, names, closed, hlist, rfl⟩ := extend?_eq_some h
  obtain ⟨front, hfront⟩ := hlist.opening_ends
  rw [hlist.text_eq, hfront] at hget
  rw [hfront]
  have hfeed : '\n' ∉ '\x7b' :: names := by simpa using hlist.no_lineFeed
  have hcut : front ++ ['\x7b'] ++ (names ++ '\x7d' :: closed)
      = front ++ ('\x7b' :: names ++ '\x7d' :: closed) := by simp
  rw [hcut] at hget
  have hnew : Eligibility.hasGetHandler
      (front ++ ('\x7b' :: extendedList names symbols ++ '\x7d' :: closed)) = true :=
    Eligibility.hasGetHandler_replace (by decide) hfeed hget
  simpa using hnew

/-! ## Other modules -/

section Others

variable {m m' text start opening names names' closed : List Char}

/-- A named import with another list between its braces. -/
lemma ListAt.replace (h : ListAt m text start opening names closed) (hbrace : '\x7d' ∉ names')
    (hfeed : '\n' ∉ names') :
    ListAt m (start ++ opening ++ (names' ++ '\x7d' :: closed)) start opening names' closed :=
  ⟨rfl, h.line_start, h.opening_eq, hbrace, hfeed, h.clause⟩

/-- A named import with an extended list. -/
lemma ListAt.extended (h : ListAt m text start opening names closed) {symbols : List (List Char)}
    (hsymbols : ∀ symbol ∈ symbols, IsName symbol) :
    ListAt m (start ++ opening ++ (extendedList names symbols ++ '\x7d' :: closed)) start opening
      (extendedList names symbols) closed := by
  apply h.replace
  · exact not_mem_extendedList h.no_brace hsymbols (by decide) (by decide) (by decide)
  · exact not_mem_extendedList h.no_lineFeed hsymbols (by decide) (by decide) (by decide)

/-- The line of the statement is a named import from its module. -/
lemma ListAt.namedAt? (h : ListAt m text start opening names closed) :
    Import.namedAt? m (opening ++ (names ++ '\x7d' :: closed))
      = some ⟨names, '\x7d' :: closed⟩ := by
  obtain ⟨indent, gap, rfl, hindent, hgap⟩ := h.opening_eq
  exact namedAt?_eq_some_iff.mpr
    ⟨indent, gap, closed, by simp, rfl, hindent, hgap, h.no_brace, h.no_lineFeed, h.clause⟩

/-- No further line of the opening starts with an `i`. -/
lemma ListAt.noLineWith (h : ListAt m text start opening names closed) :
    NoLineWith 'i' opening := by
  obtain ⟨indent, gap, rfl, hindent, hgap⟩ := h.opening_eq
  have hfeed : '\n' ∉ indent ++ "import".toList := by
    intro hmem
    rcases List.mem_append.mp hmem with hmem | hmem
    · exact absurd (hindent _ hmem) (by decide)
    · exact absurd hmem (by decide)
  rw [List.append_assoc]
  exact NoLineWith.append_left hfeed
    (NoLineWith.gap hgap (by decide) (by decide) (noLineWith_of_not_mem (by decide)))

/-- The lines in front of the statement are empty or end with a line feed. -/
lemma ListAt.line_in_front (h : ListAt m text start opening names closed) {x : List Char}
    (hx : x ∈ Text.lineStarts start) : x = [] ∨ ∃ x', x = x' ++ ['\n'] := by
  have hsuffix : x <:+ start := by
    rcases Text.mem_lineStarts_iff.mp hx with rfl | ⟨before, rfl⟩
    · exact List.suffix_refl _
    · exact ⟨before ++ ['\n'], by simp⟩
  rcases h.line_start with rfl | ⟨before, rfl⟩
  · exact .inl (List.suffix_nil.mp hsuffix)
  · rcases List.eq_nil_or_concat x with rfl | ⟨x', c, rfl⟩
    · exact .inl rfl
    · obtain ⟨t, ht⟩ := hsuffix
      have hlast := congrArg List.getLast? ht
      obtain rfl : c = '\n' := by simpa [← List.append_assoc] using hlast
      exact .inr ⟨x', by simp⟩

/-- A line that is a named import is the one of the statement, or it is one, with the same list,
whatever stands in the list of the statement. -/
lemma ListAt.line_cases (h : ListAt m text start opening names closed) (hm' : PlainSpecifier m')
    (names' : List Char) {x : List Char} (hx : x ∈ Text.lineStarts (start ++ opening)) {named : Named}
    (hnamed : Import.namedAt? m' (x ++ (names ++ '\x7d' :: closed)) = some named) :
    x = opening ∨
      ∃ named', Import.namedAt? m' (x ++ (names' ++ '\x7d' :: closed)) = some named' ∧
        named'.names = named.names := by
  rw [Text.lineStarts_append, List.mem_append] at hx
  rcases hx with hx | hx
  · obtain ⟨y, hy, rfl⟩ := List.mem_map.mp hx
    rcases h.line_in_front hy with rfl | ⟨y', rfl⟩
    · exact .inl rfl
    · rw [show (y' ++ ['\n'] ++ opening) ++ (names ++ '\x7d' :: closed)
          = y' ++ '\n' :: (opening ++ (names ++ '\x7d' :: closed)) by simp] at hnamed
      obtain ⟨named', hnamed', hnames⟩ := namedAt?_before_line hm' (namedAt?_starts h.namedAt?)
        (opening ++ (names' ++ '\x7d' :: closed)) hnamed
      exact .inr ⟨named', by simpa using hnamed', hnames⟩
  · obtain ⟨before, hbefore⟩ := Text.mem_afterLineFeeds_iff.mp hx
    obtain ⟨c, rest, htrim, hc⟩ := h.noLineWith before x hbefore
    obtain ⟨rest', hstarts⟩ := namedAt?_starts hnamed
    rw [Text.trimStart_append_of_cons htrim] at hstarts
    exact absurd (List.cons.inj hstarts).1 hc

/-- For another module this is never the line of the statement itself. -/
lemma ListAt.other_line (h : ListAt m text start opening names closed) (hm : PlainSpecifier m)
    (hm' : PlainSpecifier m') (hne : m ≠ m') {x : List Char}
    (hx : x ∈ Text.lineStarts (start ++ opening)) {named : Named}
    (hnamed : Import.namedAt? m' (x ++ (names ++ '\x7d' :: closed)) = some named) :
    ∃ named', Import.namedAt? m' (x ++ (names' ++ '\x7d' :: closed)) = some named' ∧
      named'.names = named.names := by
  rcases h.line_cases hm' names' hx hnamed with rfl | hsame
  · exact absurd (namedAt?_unique hm hm' h.namedAt? hnamed) hne
  · exact hsame

/-- The lines of a text with a list in it. -/
lemma lineStarts_list (front : List Char) {list : List Char} (hlist : '\n' ∉ list)
    (closed : List Char) :
    Text.lineStarts (front ++ (list ++ '\x7d' :: closed))
      = (Text.lineStarts front).map (· ++ (list ++ '\x7d' :: closed))
        ++ Text.afterLineFeeds ('\x7d' :: closed) := by
  rw [Text.lineStarts_append, Text.afterLineFeeds_append, Text.afterLineFeeds_eq_nil hlist]
  simp

/-- **Named imports of a text with another list** are those of the text, apart from the statement whose
list it is. -/
lemma ListAt.named_line (h : ListAt m text start opening names closed) (hm : PlainSpecifier m)
    (hm' : PlainSpecifier m') (hbrace : '\x7d' ∉ names') (hfeed : '\n' ∉ names') {line : List Char}
    (hline : line ∈ Text.lineStarts (start ++ opening ++ (names' ++ '\x7d' :: closed))) {named : Named}
    (hnamed : Import.namedAt? m' line = some named) :
    (m = m' ∧ named.names = names') ∨
      ∃ other ∈ Text.lineStarts text, ∃ named', Import.namedAt? m' other = some named' ∧
        named'.names = named.names := by
  have hnew := h.replace hbrace hfeed
  rw [lineStarts_list _ hfeed, List.mem_append] at hline
  rw [h.text_eq, lineStarts_list _ h.no_lineFeed]
  rcases hline with hline | hline
  · obtain ⟨x, hx, rfl⟩ := List.mem_map.mp hline
    rcases hnew.line_cases hm' names hx hnamed with rfl | hsame
    · obtain rfl := namedAt?_unique hm hm' hnew.namedAt? hnamed
      rw [hnew.namedAt?] at hnamed
      exact .inl ⟨rfl, by rw [← Option.some.inj hnamed]⟩
    · exact .inr ⟨_, List.mem_append_left _ (List.mem_map_of_mem hx), hsame⟩
  · exact .inr ⟨line, List.mem_append_right _ hline, named, hnamed, rfl⟩

/-- **Another list leaves the first named import from another module as it is.** -/
lemma ListAt.named?_names (h : ListAt m text start opening names closed) (hm : PlainSpecifier m)
    (hm' : PlainSpecifier m') (hne : m ≠ m') (hbrace : '\x7d' ∉ names') (hfeed : '\n' ∉ names') :
    (named? m' (start ++ opening ++ (names' ++ '\x7d' :: closed))).map Named.names
      = (named? m' text).map Named.names := by
  rw [h.text_eq]
  unfold named?
  rw [lineStarts_list _ hfeed, lineStarts_list _ h.no_lineFeed, List.findSome?_append,
    List.findSome?_append, List.findSome?_map, List.findSome?_map]
  have hfirst : ((Text.lineStarts (start ++ opening)).findSome? fun x =>
        (Import.namedAt? m' (x ++ (names' ++ '\x7d' :: closed))).map Named.names)
      = (Text.lineStarts (start ++ opening)).findSome? fun x =>
        (Import.namedAt? m' (x ++ (names ++ '\x7d' :: closed))).map Named.names := by
    have hpoint : ∀ x ∈ Text.lineStarts (start ++ opening),
        (Import.namedAt? m' (x ++ (names' ++ '\x7d' :: closed))).map Named.names
          = (Import.namedAt? m' (x ++ (names ++ '\x7d' :: closed))).map Named.names := by
      intro x hx
      ext list
      simp only [Option.map_eq_some_iff]
      constructor
      · rintro ⟨named, hnamed, rfl⟩
        exact (h.replace hbrace hfeed).other_line hm hm' hne hx hnamed
      · rintro ⟨named, hnamed, rfl⟩
        exact h.other_line hm hm' hne hx hnamed
    generalize Text.lineStarts (start ++ opening) = lines at hpoint
    induction lines with
    | nil => rfl
    | cons x lines ih =>
      rw [List.findSome?_cons, List.findSome?_cons, hpoint x (by simp),
        ih fun y hy => hpoint y (by simp [hy])]
  simp only [Option.map_or, List.map_findSome?]
  exact congrArg (Option.or · _) hfirst

end Others

/-- **A module without a list to extend has none after another module's list was extended.** -/
lemma extend?_eq_none_of_extend? {m m' text new : List Char}
    {symbols symbols' symbols'' : List (List Char)} (hm : PlainSpecifier m)
    (hm' : PlainSpecifier m') (hne : m ≠ m') (hsymbols : ∀ symbol ∈ symbols, IsName symbol)
    (h : extend? m symbols text = some new) (hnone : extend? m' symbols' text = none) :
    extend? m' symbols'' new = none := by
  obtain ⟨start, opening, names, closed, hlist, rfl⟩ := extend?_eq_some h
  have hnew := hlist.extended hsymbols
  have hnames := hlist.named?_names hm hm' hne hnew.no_brace hnew.no_lineFeed
  rw [extend?_eq_none_iff] at hnone ⊢
  intro named hnamed
  rw [hnamed, Option.map_some] at hnames
  obtain ⟨named', hnamed', hsame⟩ := Option.map_eq_some_iff.mp hnames.symm
  rw [← hsame]
  exact hnone named' hnamed'

end CachedRoutes.Import
