import CachedRoutes.Proofs.Import.Anchored
import CachedRoutes.Proofs.Import.Items

/-!
# Missing imports are declared once

With an anchor in the text, the import stage finds a place for every symbol that is missing: the list
of a named import from its module, or else a new line.

* **Declared** (`declares_ensure`): each missing symbol is in the list of a named import from its
  module. Later extensions keep such a statement (`Declares.extend?`), and lines are not inserted inside
  of it (`Declares.insertAfter`).
* **Once** (`closing_unique`): a name that is counted once is in one list, and that list belongs to one
  line (`line_unique`).
* **The stage** (`missing_declared_once`): after it nothing is missing, each symbol that was missing is
  declared once, and no other symbol is added.
-/

namespace CachedRoutes.Import

open Code (IsName)

/-- The symbol is in the list of a named import from the module. -/
def Declares (specifier symbol text : List Char) : Prop :=
  ∃ line ∈ Text.lineStarts text, ∃ named, namedAt? specifier line = some named ∧
    symbol ∈ nameList named.names

/-! ## Extending lists -/

/-- An extended list has the names that it had, and the added symbols. -/
lemma nameList_extendedList (names : List Char) {symbols : List (List Char)}
    (hsymbols : ∀ symbol ∈ symbols, IsName symbol) :
    nameList (extendedList names symbols) = nameList names ++ symbols := by
  apply nameList_items
  intro item hitem
  rcases List.mem_append.mp hitem with hitem | hitem
  · exact isItem_of_mem_nameList hitem
  · exact isItem_of_isName (hsymbols item hitem)

section Extend

variable {m text new symbol : List Char} {symbols : List (List Char)}
  (hsymbols : ∀ symbol ∈ symbols, IsName symbol) (h : extend? m symbols text = some new)
include hsymbols h

/-- The statement with the extended list. -/
lemma listAt_of_extend? : ∃ start opening names closed,
    ListAt m text start opening names closed ∧
      ListAt m new start opening (extendedList names symbols) closed := by
  obtain ⟨start, opening, names, closed, hlist, rfl⟩ := extend?_eq_some h
  exact ⟨start, opening, names, closed, hlist, hlist.extended hsymbols⟩

/-- An added symbol is declared. -/
lemma declares_of_extend? (hsymbol : symbol ∈ symbols) : Declares m symbol new := by
  obtain ⟨start, opening, names, closed, -, hnew⟩ := listAt_of_extend? hsymbols h
  refine ⟨_, hnew.line_mem, _, hnew.namedAt?, ?_⟩
  rw [nameList_extendedList names hsymbols]
  exact List.mem_append_right _ hsymbol

/-- **A symbol that is declared stays so when a list is extended.** -/
lemma Declares.extend? (hm : PlainSpecifier m) {m' : List Char} (hm' : PlainSpecifier m')
    (hdeclares : Declares m' symbol text) : Declares m' symbol new := by
  obtain ⟨start, opening, names, closed, hlist, hnew⟩ := listAt_of_extend? hsymbols h
  obtain ⟨line, hline, named, hnamed, hin⟩ := hdeclares
  rw [hlist.text_eq] at hline
  rcases hnew.named_line hm hm' hlist.no_brace hlist.no_lineFeed hline hnamed with
    ⟨rfl, hown⟩ | ⟨other, hother, named', hnamed', hsame⟩
  · refine ⟨_, hnew.line_mem, _, hnew.namedAt?, ?_⟩
    rw [nameList_extendedList names hsymbols, ← hown]
    exact List.mem_append_left _ hin
  · refine ⟨other, hother, named', hnamed', ?_⟩
    rw [hsame]
    exact hin

end Extend

/-! ## Inserting lines -/

/-- A named import whose list has no quote: the quotes of its module are the only ones. -/
lemma namedAt?_cut {specifier line : List Char} {named : Named}
    (h : namedAt? specifier line = some named) (hplain : ∀ c ∈ named.names, isImportQuote c = false) :
    ∃ lead quote closing tail, line = lead ++ quote :: (specifier ++ closing :: tail) ∧
      isImportQuote quote = true ∧ (∀ c ∈ lead, isImportQuote c = false) ∧ '\x7b' ∈ lead ∧
      ∀ more, ∃ named', namedAt? specifier (lead ++ quote :: (specifier ++ closing :: more))
          = some named' ∧ named'.names = named.names := by
  obtain ⟨indent, gap, gap₂, gap₃, quote, closing, after, rfl, hindent, hgaps, hquote, -, -, hmore⟩ :=
    namedAt?_parts h
  refine ⟨indent ++ ("import".toList ++ (gap ++ '\x7b' :: (named.names ++ '\x7d' :: (gap₂ ++
    ("from".toList ++ gap₃))))), quote, closing, after, by simp, hquote, ?_, by simp, ?_⟩
  · have hblank : ∀ c, Text.isBlank c = true → isImportQuote c = false := by
      intro c hc
      rw [Bool.eq_false_iff]
      intro hquote
      rw [isBlank_of_isImportQuote hquote] at hc
      exact Bool.noConfusion hc
    have himport : ∀ c ∈ "import".toList, isImportQuote c = false := eq_false_of_all rfl
    have hfrom : ∀ c ∈ "from".toList, isImportQuote c = false := eq_false_of_all rfl
    intro c hc
    simp only [List.mem_append, List.mem_cons] at hc
    rcases hc with hc | hc | hc | rfl | hc | rfl | hc | hc | hc
    · exact hblank c (Text.isBlank_of_isIndent (hindent c hc))
    · exact himport c hc
    · exact hblank c (hgaps c (by simp [hc]))
    · rfl
    · exact hplain c hc
    · rfl
    · exact hblank c (hgaps c (by simp [hc]))
    · exact hfrom c hc
    · exact hblank c (hgaps c (by simp [hc]))
  · intro more
    simpa using hmore more

/-- What stands in front of a line ends with a line feed. -/
lemma eq_lineFeed_of_front {start x : List Char} {c : Char}
    (h : start ++ x.concat c = [] ∨ ∃ before, start ++ x.concat c = before ++ ['\n']) : c = '\n' := by
  obtain ⟨before, hfront⟩ := h.resolve_left (by simp)
  have hends : (start ++ x) ++ [c] = before ++ ['\n'] := by simpa using hfront
  simpa using (List.append_inj' hends rfl).2

section Place

variable {front lead specifier tail a module rest after : List Char}
  {quote closing opening bar : Char}

/-- No anchor ends inside of such a statement: between the quotes of an anchor there is no brace. -/
lemma not_inside_statement (hspec : ∀ c ∈ specifier, isImportQuote c = false)
    (hlead : ∀ c ∈ lead, isImportQuote c = false) (hbrace : '\x7b' ∈ lead) (hmodule : '\x7b' ∉ module)
    (hopening : isImportQuote opening = true) (hbar : isImportQuote bar = true)
    {part more : List Char} (hfront : front ++ part = a ++ opening :: module)
    (hpart : part ++ bar :: rest ++ more = lead ++ quote :: (specifier ++ [closing])) :
    more = [] := by
  have hquiet : ∀ c, isImportQuote c = true → ∀ text : List Char,
      (∀ d ∈ text, isImportQuote d = false) → c ∉ text := by
    intro c hc text htext hmem
    rw [htext c hmem] at hc
    exact Bool.noConfusion hc
  by_contra hmore
  obtain ⟨more, last, rfl⟩ := (List.eq_nil_or_concat more).resolve_left hmore
  have hends : (part ++ bar :: (rest ++ more)) ++ [last]
      = (lead ++ quote :: specifier) ++ [closing] := by
    simpa using hpart
  have hbody : (lead ++ [quote]) ++ specifier = part ++ bar :: (rest ++ more) := by
    simpa using (List.append_inj' hends rfl).1.symm
  obtain ⟨inner, hinner, -⟩ := Text.exists_of_append_eq (hquiet bar hbar specifier hspec) hbody
  rcases concat_eq_append_cons hinner with ⟨-, -, rfl⟩ | ⟨inner, -, rfl⟩
  · obtain ⟨inner, -, rfl⟩ := Text.exists_of_append_eq (hquiet opening hopening lead hlead) hfront
    exact hmodule (List.mem_append_right _ hbrace)
  · exact hquiet bar hbar _ hlead (by simp)

/-- **Such a statement ends in front of the place behind an anchor, or it starts in a later line.** -/
lemma statement_outside (hspec : ∀ c ∈ specifier, isImportQuote c = false)
    (hlead : ∀ c ∈ lead, isImportQuote c = false) (hbrace : '\x7b' ∈ lead) (hmodule : '\x7b' ∉ module)
    (hopening : isImportQuote opening = true) (hbar : isImportQuote bar = true)
    (hfeed : '\n' ∉ bar :: rest)
    (hfront : front = [] ∨ ∃ before, front = before ++ ['\n'])
    (h : front ++ (lead ++ quote :: (specifier ++ [closing])) ++ tail
      = (a ++ opening :: module) ++ bar :: rest ++ after) :
    (∃ more, (a ++ opening :: module) ++ bar :: rest
        = front ++ (lead ++ quote :: (specifier ++ [closing])) ++ more ∧ tail = more ++ after) ∨
      ∃ more, front = (a ++ opening :: module) ++ bar :: rest ++ (more ++ ['\n']) ∧
        after = (more ++ ['\n']) ++ (lead ++ quote :: (specifier ++ [closing])) ++ tail := by
  rcases List.append_eq_append_iff.mp h with ⟨more, hpast, htail⟩ | ⟨more, hshort, hafter⟩
  · exact .inl ⟨more, hpast, htail⟩
  rcases List.append_eq_append_iff.mp hshort with ⟨t, hinside, hstatement⟩ | ⟨t, rfl, rfl⟩
  · -- the place can only be the end of the statement
    have hend : ∀ part, front ++ part = a ++ opening :: module → t = part ++ bar :: rest →
        more = [] := by
      rintro part hpart rfl
      exact not_inside_statement hspec hlead hbrace hmodule hopening hbar hpart hstatement.symm
    have hnil : more = [] := by
      rcases List.append_eq_append_iff.mp hinside with ⟨w, rfl, hw⟩ | ⟨w, hw, rfl⟩
      · rcases List.eq_nil_or_concat w with rfl | ⟨w, d, rfl⟩
        · exact hend [] (by simp) hw.symm
        · obtain rfl := eq_lineFeed_of_front hfront
          rw [hw] at hfeed
          simp at hfeed
      · exact hend w hw.symm rfl
    subst hnil
    exact .inl ⟨[], by simpa using hshort.symm, hafter.symm⟩
  · -- the line of the statement starts behind the place
    rcases List.eq_nil_or_concat t with rfl | ⟨t, d, rfl⟩
    · exfalso
      obtain ⟨b, hb⟩ := hfront.resolve_left (by simp)
      have hends : b ++ ['\n'] = (a ++ opening :: module) ++ bar :: rest := by simpa using hb.symm
      rcases concat_eq_append_cons hends with ⟨-, hsame, -⟩ | ⟨inner, rfl, -⟩
      · exact hfeed (by rw [← hsame]; exact List.mem_cons_self)
      · simp at hfeed
    · obtain rfl := eq_lineFeed_of_front hfront
      exact .inr ⟨t, by simp, by simpa using hafter⟩

end Place

/-- **A symbol that is declared stays so when lines are inserted,** if there is no quote in the
list. -/
lemma Declares.insertAfter {specifier symbol text module : List Char} {anchor : Anchor}
    (hspec : PlainSpecifier specifier) (hmodule : '\x7b' ∉ module)
    (h : anchor? module text = some anchor) (list : List Addition)
    (hplain : PlainLists specifier text) (hdeclares : Declares specifier symbol text) :
    Declares specifier symbol (Import.insertAfter anchor list text) := by
  obtain ⟨a, opening, bar, rest, hanchor, hopening, hbar, hrest⟩ := anchor?_module h
  obtain ⟨line, hline, named, hnamed, hin⟩ := hdeclares
  obtain ⟨lead, quote, closing, tail, rfl, hquote, hlead, hbrace, hagain⟩ :=
    namedAt?_cut hnamed (hplain line hline named hnamed)
  obtain ⟨front, htext, hfront⟩ := Text.exists_front_of_mem_lineStarts hline
  have hfeed : '\n' ∉ bar :: rest := by
    intro hmem
    rcases List.mem_cons.mp hmem with rfl | hmem
    · exact absurd hbar (by decide)
    · exact absurd (hrest _ hmem) (by decide)
  have hcut : text = (a ++ opening :: module) ++ bar :: rest ++ anchor.after := by
    rw [hanchor, List.append_assoc _ (bar :: rest)]
  have hwhole : front ++ (lead ++ quote :: (specifier ++ [closing])) ++ tail
      = (a ++ opening :: module) ++ bar :: rest ++ anchor.after := by
    rw [← hcut, htext]
    simp
  have hstands : ∀ before more, (before = [] ∨ ∃ b, before = b ++ ['\n']) →
      Declares specifier symbol (before ++ (lead ++ quote :: (specifier ++ closing :: more))) := by
    intro before more hbefore
    obtain ⟨named', hnamed', hsame⟩ := hagain more
    refine ⟨_, ?_, named', hnamed', by rw [hsame]; exact hin⟩
    rw [Text.mem_lineStarts_iff]
    rcases hbefore with rfl | ⟨b, rfl⟩
    · exact .inl rfl
    · exact .inr ⟨b, by simp⟩
  rw [hcut, insertAfter_eq]
  generalize (list.flatMap fun addition => lineEnd _ ++ importLine _ _ addition) = lines
  rcases statement_outside hspec.no_quote hlead hbrace hmodule hopening hbar hfeed hfront hwhole with
    ⟨more, hpast, -⟩ | ⟨more, -, hafter⟩
  · rw [hpast]
    simpa using hstands front (more ++ lines ++ anchor.after) hfront
  · rw [hafter]
    simpa using hstands (a ++ opening :: module ++ bar :: rest ++ lines ++ more ++ ['\n']) tail
      (.inr ⟨_, rfl⟩)

/-- An inserted line is a named import of its symbols. -/
lemma namedAt?_importLine {quote : Char} (hquote : isImportQuote quote = true) (terminated : Bool)
    {addition : Addition}
    (hsymbols : ∀ symbol ∈ addition.symbols.map String.toList, IsName symbol) (more : List Char) :
    ∃ named, namedAt? addition.specifier.toList (importLine quote terminated addition ++ more)
        = some named ∧ nameList named.names = addition.symbols.map String.toList := by
  have hclause : (fromClause? addition.specifier.toList (Text.trimStart ([' '] ++ ("from".toList
      ++ [' '] ++ quote :: addition.specifier.toList
      ++ quote :: ((if terminated then [';'] else []) ++ more))))).isSome = true := by
    rw [Text.trimStart_append blank_singleton (by simp [Text.isBlank]), Option.isSome_iff_exists]
    exact ⟨(quote, (if terminated then [';'] else []) ++ more),
      fromClause?_eq_some_iff.mpr ⟨[' '], quote, rfl, blank_singleton, hquote, hquote⟩⟩
  refine ⟨⟨spaced (addition.symbols.map String.toList), _⟩, namedAt?_eq_some_iff.mpr
    ⟨[], [' '], _, ?_, rfl, by simp, blank_singleton, ?_, ?_, hclause⟩, nameList_spaced hsymbols⟩
  · have himport : "import ".toList = "import".toList ++ [' '] := rfl
    have hfrom : " from ".toList = [' '] ++ ("from".toList ++ [' ']) := rfl
    rw [importLine_eq, himport, hfrom]
    simp
  · exact not_mem_spaced hsymbols (by decide) (by decide) (by decide)
  · exact not_mem_spaced hsymbols (by decide) (by decide) (by decide)

/-- The symbols of the inserted lines are declared. -/
lemma declares_of_insertAfter {text symbol : List Char} {anchor : Anchor}
    (hquote : isImportQuote anchor.quote = true) {list : List Addition} {addition : Addition}
    (hmem : addition ∈ list)
    (hsymbols : ∀ symbol ∈ addition.symbols.map String.toList, IsName symbol)
    (hsymbol : symbol ∈ addition.symbols.map String.toList) :
    Declares addition.specifier.toList symbol (Import.insertAfter anchor list text) := by
  obtain ⟨earlier, later, rfl⟩ := List.append_of_mem hmem
  have hend : ∃ front, lineEnd text = front ++ ['\n'] := by
    unfold lineEnd
    split
    · exact ⟨['\r'], rfl⟩
    · exact ⟨[], rfl⟩
  obtain ⟨front, hfront⟩ := hend
  rw [Import.insertAfter, List.flatMap_append, List.flatMap_cons]
  generalize (earlier.flatMap fun addition =>
    lineEnd text ++ importLine anchor.quote anchor.terminated addition) = ahead
  generalize (later.flatMap fun addition =>
    lineEnd text ++ importLine anchor.quote anchor.terminated addition) = behind
  obtain ⟨named, hnamed, hlist⟩ := namedAt?_importLine hquote anchor.terminated hsymbols
    (behind ++ anchor.after)
  refine ⟨_, ?_, named, hnamed, by rw [hlist]; exact hsymbol⟩
  rw [Text.mem_lineStarts_iff, hfront]
  exact .inr ⟨Text.upTo text anchor.after ++ (ahead ++ front), by simp⟩

/-! ## Once -/

/-- A name in a list counts. -/
lemma listings_pos {name names : List Char} (hname : IsName name) (h : name ∈ nameList names) :
    1 ≤ listings name names := by
  obtain ⟨front, behind, hsplit⟩ := List.append_of_mem h
  rw [← listings_nameList hname, hsplit, List.map_append, List.map_cons, List.sum_append,
    List.sum_cons, listings_name name hname, List.count_singleton_self]
  omega

/-- **A name that counts once is in one list:** all lists in braces that have it end at one brace. -/
lemma closing_unique {name text : List Char} (hname : IsName name) (hone : listings name text ≤ 1)
    {before names closed before' names' closed' : List Char}
    (htext : text = before ++ '\x7b' :: (names ++ '\x7d' :: closed)) (hno : '\x7d' ∉ names)
    (hin : name ∈ nameList names)
    (htext' : text = before' ++ '\x7b' :: (names' ++ '\x7d' :: closed')) (hno' : '\x7d' ∉ names')
    (hin' : name ∈ nameList names') : closed = closed' := by
  have hpos := listings_pos hname hin
  have hpos' := listings_pos hname hin'
  -- two lists, one behind the other, would count twice
  have hapart : ∀ a x b y q : List Char,
      text = (a ++ '\x7b' :: x) ++ '\x7d' :: (b ++ '\x7b' :: y ++ '\x7d' :: q) →
        1 ≤ listings name x → 1 ≤ listings name y → False := by
    intro a x b y q hcut hx hy
    rw [hcut, listings_append name _ (by decide), listings_append name _ (by decide),
      listings_append name _ (by decide), listings_append name _ (by decide)] at hone
    omega
  have hlists : (before ++ ['\x7b']) ++ names ++ '\x7d' :: closed
      = (before' ++ ['\x7b']) ++ names' ++ '\x7d' :: closed' := by
    simpa using htext.symm.trans htext'
  rcases Text.closed_cases hno hno' hlists with ⟨-, hsame⟩ | ⟨more, hmore, rfl⟩ | ⟨more, hmore, rfl⟩
  · exact hsame
  · rcases concat_eq_append_cons hmore with ⟨-, hsame, -⟩ | ⟨inner, rfl, -⟩
    · exact absurd hsame (by decide)
    · exact (hapart before names inner names' closed' (by rw [htext]; simp) hpos hpos').elim
  · rcases concat_eq_append_cons hmore with ⟨-, hsame, -⟩ | ⟨inner, rfl, -⟩
    · exact absurd hsame (by decide)
    · exact (hapart before' names' inner names closed (by rw [htext']; simp) hpos' hpos).elim

/-- No further line of a named import starts with an `i`, up to its closing brace. -/
lemma namedAt?_one_line {specifier line : List Char} {named : Named}
    (h : namedAt? specifier line = some named) :
    ∃ front, line = front ++ named.after ∧ NoLineWith 'i' front := by
  obtain ⟨indent, gap, closed, rfl, hafter, hindent, hgap, hbrace, hfeed, hclause⟩ :=
    namedAt?_eq_some_iff.mp h
  have hlist : ListAt specifier (indent ++ "import".toList ++ gap ++ '\x7b' :: named.names
      ++ '\x7d' :: closed) [] (indent ++ "import".toList ++ gap ++ ['\x7b']) named.names closed :=
    ⟨by simp, .inl rfl, ⟨indent, gap, rfl, hindent, hgap⟩, hbrace, hfeed, hclause⟩
  refine ⟨(indent ++ "import".toList ++ gap ++ ['\x7b']) ++ named.names, by rw [hafter]; simp, ?_⟩
  intro before after hsplit
  obtain ⟨more, hmore, rfl⟩ := Text.exists_of_append_eq hfeed hsplit
  obtain ⟨c, rest, htrim, hc⟩ := hlist.noLineWith before more hmore
  exact ⟨c, rest ++ named.names, Text.trimStart_append_of_cons htrim, hc⟩

/-- A named import does not start in a further line of another one that has the same list. -/
lemma line_eq_of_suffix {specifier specifier' text line line' : List Char} {named named' : Named}
    (hline : line ∈ Text.lineStarts text) (h : namedAt? specifier line = some named)
    (hline' : line' ∈ Text.lineStarts text) (h' : namedAt? specifier' line' = some named')
    (hafter : named.after = named'.after) (hsuffix : line' <:+ line) : line = line' := by
  obtain ⟨start, htext, -⟩ := Text.exists_front_of_mem_lineStarts hline
  obtain ⟨start', htext', hstart'⟩ := Text.exists_front_of_mem_lineStarts hline'
  obtain ⟨x, rfl⟩ := hsuffix
  have htexts : (start ++ x) ++ line' = start' ++ line' := by
    rw [← htext', htext, List.append_assoc]
  have hstarts : start ++ x = start' := List.append_cancel_right htexts
  rcases List.eq_nil_or_concat x with rfl | ⟨x, c, rfl⟩
  · rfl
  · exfalso
    obtain rfl := eq_lineFeed_of_front (hstarts ▸ hstart')
    obtain ⟨front, hfront, hno⟩ := namedAt?_one_line h
    obtain ⟨front', hfront', -⟩ := namedAt?_one_line h'
    have hlines : front ++ named.after = (x ++ '\n' :: front') ++ named.after := by
      rw [← hfront, hafter, List.append_assoc, List.cons_append, ← hfront']
      simp
    obtain ⟨c, rest, htrim, hc⟩ := hno x front' (List.append_cancel_right hlines)
    obtain ⟨rest', hi⟩ := namedAt?_starts h'
    rw [hfront', Text.trimStart_append_of_cons htrim] at hi
    exact hc (List.cons.inj hi).1

/-- **A list belongs to one line.** -/
lemma line_unique {specifier specifier' text line line' : List Char} {named named' : Named}
    (hline : line ∈ Text.lineStarts text) (h : namedAt? specifier line = some named)
    (hline' : line' ∈ Text.lineStarts text) (h' : namedAt? specifier' line' = some named')
    (hafter : named.after = named'.after) : line = line' := by
  obtain ⟨start, htext, -⟩ := Text.exists_front_of_mem_lineStarts hline
  obtain ⟨start', htext', -⟩ := Text.exists_front_of_mem_lineStarts hline'
  rcases List.suffix_or_suffix_of_suffix ⟨start, htext.symm⟩ ⟨start', htext'.symm⟩ with hshort | hlong
  · exact (line_eq_of_suffix hline' h' hline h hafter.symm hshort).symm
  · exact line_eq_of_suffix hline h hline' h' hafter hlong

/-! ## The stage -/

/-- Needed imports as they are listed: no symbol is needed twice, and no specifier has a comma or a
brace in it. -/
structure Listable (imports : Settings.Imports) : Prop extends Writable imports where
  distinct : (imports.required.map (·.symbol)).Nodup
  unmarked : ∀ required ∈ imports.required, ∀ c ∈ required.specifier.toList, isListMark c = false
  anchor : ∀ c ∈ imports.anchor.toList, isListMark c = false

/-- A name of the text stays in it. -/
lemma infix_ensure {name text : List Char} (hname : IsName name) (imports : Settings.Imports)
    (h : name <:+: text) : name <:+: (ensure imports text).text := by
  have hextended := infix_extendAll hname (additions imports text) h
  rcases ensure_cases imports text with ⟨-, heq⟩ | ⟨anchor, hanchor, heq⟩ | ⟨-, heq⟩
  · rw [heq]
    exact hextended
  · rw [heq]
    exact infix_insertAfter hname hanchor _ hextended
  · rw [heq]
    exact hextended

section Stage

variable {imports : Settings.Imports} (himports : Listable imports) {text : List Char}
  (hanchor : hasAnchor imports text = true)
  (hplain : ∀ required ∈ imports.required, PlainLists required.specifier.toList text)
include himports hanchor hplain

/-- The text with all lists extended has an anchor, and no quotes in its lists. -/
lemma anchored_extended :
    (anchor? imports.anchor.toList (extendAll (additions imports text) text).1.text).isSome = true ∧
      ∀ addition ∈ additions imports text,
        PlainLists addition.specifier.toList (extendAll (additions imports text) text).1.text := by
  have hbrace : '\x7d' ∉ imports.anchor.toList := by
    intro hmem
    exact absurd (himports.anchor _ hmem) (by decide)
  have hlists : ∀ addition ∈ additions imports text, PlainLists addition.specifier.toList text := by
    intro addition hmem
    obtain ⟨required, hrequired, hspecifier⟩ := exists_required_of_mem_additions hmem
    rw [← hspecifier]
    exact hplain required hrequired
  obtain ⟨hextended, hkept⟩ := anchored_extendAll (fun addition hmem => himports.addition hmem) hlists
    hbrace (anchor?_isSome_iff.mp hanchor)
  exact ⟨anchor?_isSome_iff.mpr hextended, hkept⟩

/-- **Every missing symbol is declared.** -/
lemma declares_ensure {required : Settings.RequiredImport} (h : required ∈ missing imports text) :
    Declares required.specifier.toList required.symbol.toList (ensure imports text).text := by
  obtain ⟨addition, haddition, hspecifier, hsymbol⟩ := exists_addition h
  have hwritable := himports.addition haddition
  have hsymbol' : required.symbol.toList ∈ addition.symbols.map String.toList :=
    List.mem_map_of_mem hsymbol
  obtain ⟨hsome, hlists⟩ := anchored_extended himports hanchor hplain
  have hmade : Declares addition.specifier.toList required.symbol.toList
      (extendAll (additions imports text) text).1.text ∨
        addition ∈ (extendAll (additions imports text) text).2 := by
    apply extendAll_made (P := Declares addition.specifier.toList required.symbol.toList) haddition
    · intro text' new hextend
      exact declares_of_extend? hwritable.symbols hextend hsymbol'
    · intro other hother text' new hextend hdeclares
      have hother' := himports.addition hother
      exact Declares.extend? hother'.symbols hextend hother'.specifier hwritable.specifier hdeclares
  rw [← hspecifier]
  rcases ensure_cases imports text with ⟨hleft, heq⟩ | ⟨anchor, hfound, heq⟩ | ⟨hnone, -⟩
  · rw [heq]
    rcases hmade with hdeclares | hover
    · exact hdeclares
    · rw [hleft] at hover
      exact absurd hover List.not_mem_nil
  · rw [heq]
    rcases hmade with hdeclares | hover
    · apply hdeclares.insertAfter hwritable.specifier _ hfound _ (hlists addition haddition)
      intro hmem
      exact absurd (himports.anchor _ hmem) (by decide)
    · exact declares_of_insertAfter (anchor?_quote hfound) hover hwritable.symbols hsymbol'
  · rw [hnone] at hsome
    exact absurd hsome (by simp)

/-- **Nothing is missing any more.** -/
lemma missing_ensure : missing imports (ensure imports text).text = [] := by
  rw [List.eq_nil_iff_forall_not_mem]
  intro required hrequired
  obtain ⟨hmem, habsent⟩ := List.mem_filter.mp hrequired
  rw [Bool.not_eq_true', Bool.eq_false_iff, ne_eq, Text.contains_iff] at habsent
  apply habsent
  have hname := himports.symbols required hmem
  by_cases hin : required.symbol.toList <:+: text
  · exact infix_ensure hname imports hin
  · have hmissing : required ∈ missing imports text := by
      refine List.mem_filter.mpr ⟨hmem, ?_⟩
      rw [Bool.not_eq_true', Bool.eq_false_iff, ne_eq, Text.contains_iff]
      exact hin
    obtain ⟨line, hline, named, hnamed, hlisted⟩ := declares_ensure himports hanchor hplain hmissing
    obtain ⟨indent, gap, closed, rfl, -⟩ := namedAt?_eq_some_iff.mp hnamed
    obtain ⟨front, htext, -⟩ := Text.exists_front_of_mem_lineStarts hline
    rw [htext]
    exact (infix_of_mem_nameList hlisted).trans
      ⟨front ++ (indent ++ "import".toList ++ gap ++ ['\x7b']), '\x7d' :: closed, by simp⟩

/-- **The stage counts one item more for each missing symbol,** and none for other names. -/
lemma listings_stage {name : String} (hname : IsName name.toList) :
    listings name.toList (ensure imports text).text = listings name.toList text
      + if ∃ required ∈ missing imports text, required.symbol = name then 1 else 0 := by
  rw [listings_ensure hname himports.symbols himports.unmarked
    (anchored_extended himports hanchor hplain).1, count_added himports.distinct]

end Stage

/-- The symbol is declared once: there is one line that is a named import of it from the module, and
every list in braces that has the symbol ends where the list of that line ends. -/
def DeclaredOnce (specifier symbol text : List Char) : Prop :=
  ∃ line ∈ Text.lineStarts text, ∃ named, namedAt? specifier line = some named ∧
    symbol ∈ nameList named.names ∧
    (∀ other ∈ Text.lineStarts text, ∀ named', namedAt? specifier other = some named' →
      symbol ∈ nameList named'.names → other = line) ∧
    ∀ before names closed, text = before ++ '\x7b' :: (names ++ '\x7d' :: closed) → '\x7d' ∉ names →
      symbol ∈ nameList names → '\x7d' :: closed = named.after

/-- A symbol that is declared and counts once is declared once. -/
lemma Declares.once {specifier symbol text : List Char} (hsymbol : IsName symbol)
    (hone : listings symbol text ≤ 1) (h : Declares specifier symbol text) :
    DeclaredOnce specifier symbol text := by
  obtain ⟨line, hline, named, hnamed, hin⟩ := h
  -- the list of a named import as a list in braces of the text
  have hlist : ∀ line ∈ Text.lineStarts text, ∀ named, namedAt? specifier line = some named →
      ∃ before closed, text = before ++ '\x7b' :: (named.names ++ '\x7d' :: closed) ∧
        '\x7d' ∉ named.names ∧ named.after = '\x7d' :: closed := by
    intro line hline named hnamed
    obtain ⟨start, htext, -⟩ := Text.exists_front_of_mem_lineStarts hline
    obtain ⟨indent, gap, closed, rfl, hafter, -, -, hbrace, -, -⟩ := namedAt?_eq_some_iff.mp hnamed
    exact ⟨start ++ (indent ++ "import".toList ++ gap), closed, by rw [htext]; simp, hbrace, hafter⟩
  obtain ⟨before, closed, htext, hno, hafter⟩ := hlist line hline named hnamed
  have hlast : ∀ before names closed, text = before ++ '\x7b' :: (names ++ '\x7d' :: closed) →
      '\x7d' ∉ names → symbol ∈ nameList names → '\x7d' :: closed = named.after := by
    intro before' names' closed' htext' hno' hin'
    rw [hafter, closing_unique hsymbol hone htext hno hin htext' hno' hin']
  refine ⟨line, hline, named, hnamed, hin, ?_, hlast⟩
  intro other hother named' hnamed' hin'
  obtain ⟨before', closed', htext', hno', hafter'⟩ := hlist other hother named' hnamed'
  apply line_unique hother hnamed' hline hnamed
  rw [hafter']
  exact hlast before' named'.names closed' htext' hno' hin'

/-- **With an anchor, every missing import is declared once, from its own module.** Let no symbol be
needed twice, let the symbols be names, and let specifiers have no quotes, line feeds, commas and
braces. Take a text with an anchor, and without quotes in the lists of its named imports from needed
modules. After the stage nothing is missing. Every symbol that was missing is declared once, in a
named import from its module. Each of them makes one item more in the text, and no other name does. -/
theorem missing_declared_once {imports : Settings.Imports} (himports : Listable imports)
    {text : List Char} (hanchor : hasAnchor imports text = true)
    (hplain : ∀ required ∈ imports.required, PlainLists required.specifier.toList text) :
    let new := (ensure imports text).text
    missing imports new = [] ∧
      (∀ required ∈ missing imports text,
        DeclaredOnce required.specifier.toList required.symbol.toList new) ∧
      ∀ name : String, IsName name.toList →
        listings name.toList new = listings name.toList text
          + if ∃ required ∈ missing imports text, required.symbol = name then 1 else 0 := by
  intro new
  have hcount : ∀ name : String, IsName name.toList →
      listings name.toList new = listings name.toList text
        + if ∃ required ∈ missing imports text, required.symbol = name then 1 else 0 :=
    fun name hname => listings_stage himports hanchor hplain hname
  refine ⟨missing_ensure himports hanchor hplain, ?_, hcount⟩
  intro required hrequired
  obtain ⟨hmem, habsent⟩ := List.mem_filter.mp hrequired
  rw [Bool.not_eq_true', Bool.eq_false_iff, ne_eq, Text.contains_iff] at habsent
  have hname := himports.symbols required hmem
  apply Declares.once hname _ (declares_ensure himports hanchor hplain hrequired)
  rw [hcount required.symbol hname, listings_eq_zero habsent, Nat.zero_add]
  split
  · exact Nat.le_refl 1
  · exact Nat.zero_le 1

/-- `PlainLists` from a look at all lines. -/
lemma plainLists_of_all {specifier text : List Char}
    (h : ((Text.lineStarts text).all fun line => (namedAt? specifier line).all fun named =>
      named.names.all fun c => !isImportQuote c) = true) : PlainLists specifier text := by
  intro line hline named hnamed c hc
  have hall := List.all_eq_true.mp h line hline
  rw [hnamed, Option.all_some] at hall
  simpa using List.all_eq_true.mp hall c hc

/-- One of two modules has an empty list, which is not extended, and the anchor reaches over the list
of the other one. -/
theorem missing_declared_once_lists :
    let imports : Settings.Imports := {}
    let text := "import \x7b\x7d from '@/lib/cache'\nimport \x7b tag \x7d from 'next/cache'\n".toList
      ++ "import a from 'next/server'\n".toList
    let new := "import \x7b\x7d from '@/lib/cache'\nimport \x7b tag, unstable_cache \x7d ".toList
      ++ ("from 'next/cache'\nimport a from 'next/server'\n".toList
      ++ "import \x7b CACHE_TAGS \x7d from '@/lib/cache'\n".toList)
    Listable imports ∧ hasAnchor imports text = true ∧
      (∀ required ∈ imports.required, PlainLists required.specifier.toList text) ∧
      (ensure imports text).text = new ∧ missing imports new = [] ∧
      DeclaredOnce "next/cache".toList "unstable_cache".toList new ∧
      DeclaredOnce "@/lib/cache".toList "CACHE_TAGS".toList new := by
  intro imports text new
  have htext : text = _ ++ _ := congrArg₂ (· ++ ·) String.toList_ofList String.toList_ofList
  have hresult : new = _ ++ (_ ++ _) := congrArg₂ (· ++ ·) String.toList_ofList
    (congrArg₂ (· ++ ·) String.toList_ofList String.toList_ofList)
  have himports : Listable imports := by
    have hsymbols : ∀ required ∈ imports.required, Settings.isIdentifier required.symbol = true := by
      decide
    have hspecifiers : ∀ required ∈ imports.required, required.specifier.toList.all
        (fun c => !isImportQuote c && c != '\n') = true := by decide
    have hmarks : ∀ required ∈ imports.required, (required.specifier.toList.all fun c =>
        !isListMark c) = true := by decide
    refine ⟨⟨fun required hmem => ?_, fun required hmem => ?_⟩, by decide,
      fun required hmem => ?_, eq_false_of_all (by decide)⟩
    · exact Code.isName_of_isIdentifier (hsymbols required hmem)
    · exact plainSpecifier_of_all (hspecifiers required hmem)
    · exact eq_false_of_all (hmarks required hmem)
  have hanchor : hasAnchor imports text = true := by
    rw [htext]
    decide +kernel
  have hplain : ∀ required ∈ imports.required, PlainLists required.specifier.toList text := by
    have hall : ∀ required ∈ imports.required, ((Text.lineStarts text).all fun line =>
        (namedAt? required.specifier.toList line).all fun named =>
          named.names.all fun c => !isImportQuote c) = true := by
      rw [htext]
      decide +kernel
    exact fun required hmem => plainLists_of_all (hall required hmem)
  have hnew : (ensure imports text).text = new := by
    rw [htext, hresult]
    decide +kernel
  have hmissing : missing imports text = imports.required := by
    rw [htext]
    decide +kernel
  obtain ⟨hnothing, honce, -⟩ := missing_declared_once himports hanchor hplain
  rw [hnew, hmissing] at honce
  rw [hnew] at hnothing
  refine ⟨himports, hanchor, hplain, hnew, hnothing, ?_, ?_⟩
  · exact honce ⟨"unstable_cache", "next/cache"⟩ List.mem_cons_self
  · exact honce ⟨"CACHE_TAGS", "@/lib/cache"⟩ (List.mem_cons_of_mem _ List.mem_cons_self)

end CachedRoutes.Import
