import CachedRoutes.Proofs.Import.Ensure

/-!
# The anchor is still there

New import lines go behind the anchor, and the anchor is looked for in a text whose lists have been
extended already. An anchor may reach over several lines, and over such lists.

* **The form of an anchor** (`anchor?_isSome_iff`): `import` at the start of a line, and behind it a
  `from` clause with the module, with no semicolon in between.
* **Lists without quotes** (`anchored_extend?`): a text with an anchor has one after a list was
  extended, if there is no quote in that list.
-/

namespace CachedRoutes.Import

open Code (IsName)

/-! ## The form of an anchor -/

/-- How a text is cut at an import of the module: what stands in front of its line, the word `import`
with a blank, what comes up to the `from` clause, the clause, and the rest. -/
structure AnchorIn (specifier text front lead between clause after : List Char) : Prop where
  text_eq : text = front ++ (lead ++ (between ++ (clause ++ after)))
  line_start : front = [] ∨ ∃ before, front = before ++ ['\n']
  lead_eq : ∃ indent blank, lead = indent ++ "import".toList ++ [blank] ∧
    (∀ c ∈ indent, Text.isIndent c = true) ∧ Text.isBlank blank = true
  no_semicolon : ';' ∉ between
  boundary : Text.isBoundary (lead ++ between).getLast? (some 'f') = true
  clause_eq : ∃ gap opening closing,
    clause = "from".toList ++ gap ++ opening :: specifier ++ [closing] ∧
    (∀ c ∈ gap, Text.isBlank c = true) ∧ isImportQuote opening = true ∧ isImportQuote closing = true

/-- The text has an import of the module that can be an anchor. -/
def Anchored (specifier text : List Char) : Prop :=
  ∃ front lead between clause after, AnchorIn specifier text front lead between clause after

/-- A `from` clause lies ahead exactly if one starts a word further on, and there is no semicolon in
front of it. -/
lemma clauseAhead?_isSome_iff {specifier text : List Char} {before : Char} :
    (clauseAhead? specifier before text).isSome = true ↔
      ∃ between rest, text = between ++ rest ∧ ';' ∉ between ∧
        Text.isBoundary (before :: between).getLast? rest.head? = true ∧
        (fromClause? specifier rest).isSome = true := by
  induction text generalizing before with
  | nil =>
    simp only [clauseAhead?, Option.isSome_none, Bool.false_eq_true, false_iff]
    rintro ⟨between, rest, hnil, -, -, hclause⟩
    obtain ⟨-, rfl⟩ := List.append_eq_nil_iff.mp hnil.symm
    simp [fromClause?, Text.after?] at hclause
  | cons c text ih =>
    have hlast : ∀ between : List Char,
        (before :: c :: between).getLast? = (c :: between).getLast? := by
      intro between
      rw [List.getLast?_cons_cons]
    rw [clauseAhead?]
    constructor
    · intro h
      split at h
      · rename_i clause hclause
        split at hclause
        · rename_i hboundary
          exact ⟨[], c :: text, rfl, by simp, hboundary, by simp [hclause]⟩
        · simp at hclause
      · split at h
        · simp at h
        · rename_i hsemicolon
          obtain ⟨between, rest, rfl, hbetween, hboundary, hclause⟩ := ih.mp h
          refine ⟨c :: between, rest, rfl, ?_, ?_, hclause⟩
          · simp only [List.mem_cons, not_or]
            exact ⟨Ne.symm hsemicolon, hbetween⟩
          · rw [hlast]
            exact hboundary
    · rintro ⟨between, rest, htext, hbetween, hboundary, hclause⟩
      split
      · rfl
      · rename_i hnone
        cases between with
        | nil =>
          rw [List.nil_append] at htext
          subst htext
          have hstarts : Text.isBoundary (some before) (some c) = true := hboundary
          rw [if_pos hstarts] at hnone
          rw [hnone] at hclause
          simp at hclause
        | cons d between =>
          obtain ⟨rfl, rfl⟩ := List.cons.inj htext
          simp only [List.mem_cons, not_or] at hbetween
          rw [if_neg (Ne.symm hbetween.1)]
          refine ih.mpr ⟨between, rest, rfl, hbetween.2, ?_, hclause⟩
          rw [← hlast]
          exact hboundary

/-- The last character in front of a clause. -/
lemma getLast?_lead (indent : List Char) (blank : Char) (between : List Char) :
    (indent ++ "import".toList ++ [blank] ++ between).getLast? = (blank :: between).getLast? := by
  rw [List.append_assoc, List.singleton_append, List.getLast?_append_of_ne_nil _ (by simp)]

/-- **There is an anchor exactly if a line is an import of the module.** -/
lemma anchor?_isSome_iff {specifier text : List Char} :
    (anchor? specifier text).isSome = true ↔ Anchored specifier text := by
  unfold anchor?
  rw [List.findSome?_isSome_iff]
  constructor
  · rintro ⟨line, hline, hanchor⟩
    obtain ⟨front, rfl, hfront⟩ := Text.exists_front_of_mem_lineStarts hline
    unfold anchorAt? at hanchor
    split at hanchor
    · rename_i blank rest hafter
      split at hanchor
      · rename_i hblank
        rw [Option.isSome_map] at hanchor
        obtain ⟨between, rest, rfl, hbetween, hboundary, hclause⟩ :=
          clauseAhead?_isSome_iff.mp hanchor
        obtain ⟨⟨opening, after⟩, hclause⟩ := Option.isSome_iff_exists.mp hclause
        obtain ⟨gap, closing, rfl, hgap, hopening, hclosing⟩ := fromClause?_eq_some_iff.mp hclause
        refine ⟨front, line.takeWhile Text.isIndent ++ "import".toList ++ [blank], between,
          "from".toList ++ gap ++ opening :: specifier ++ [closing], after, ?_, hfront,
          ⟨_, blank, rfl, ?_, hblank⟩, hbetween, ?_, ⟨gap, opening, closing, rfl, hgap, hopening,
            hclosing⟩⟩
        · have hsplit := List.takeWhile_append_dropWhile (p := Text.isIndent) (l := line)
          rw [Text.after?_eq_some_iff.mp hafter] at hsplit
          conv_lhs => rw [← hsplit]
          simp
        · intro c hc
          exact List.mem_takeWhile_imp hc
        · rw [getLast?_lead]
          exact hboundary
      · simp at hanchor
    · simp at hanchor
  · rintro ⟨front, lead, between, clause, after, h⟩
    obtain ⟨indent, blank, rfl, hindent, hblank⟩ := h.lead_eq
    obtain ⟨gap, opening, closing, rfl, hgap, hopening, hclosing⟩ := h.clause_eq
    have hboundary := h.boundary
    rw [getLast?_lead] at hboundary
    generalize hrest : "from".toList ++ gap ++ opening :: specifier ++ [closing] ++ after = rest
    have hclause : (fromClause? specifier rest).isSome = true := by
      rw [Option.isSome_iff_exists]
      exact ⟨(opening, after), fromClause?_eq_some_iff.mpr ⟨gap, closing, by simp [← hrest], hgap,
        hopening, hclosing⟩⟩
    have hhead : rest.head? = some 'f' := by rw [← hrest]; rfl
    refine ⟨indent ++ ("import".toList ++ blank :: (between ++ rest)), ?_, ?_⟩
    · rw [h.text_eq, Text.mem_lineStarts_iff]
      have hline : indent ++ "import".toList ++ [blank] ++ (between ++ ("from".toList ++ gap
          ++ opening :: specifier ++ [closing] ++ after))
            = indent ++ ("import".toList ++ blank :: (between ++ rest)) := by
        rw [hrest]
        simp
      rw [hline]
      rcases h.line_start with rfl | ⟨before, rfl⟩
      · exact .inl rfl
      · exact .inr ⟨before, by simp⟩
    · have hcut : (indent ++ ("import".toList ++ blank :: (between ++ rest))).dropWhile Text.isIndent
          = "import".toList ++ blank :: (between ++ rest) :=
        dropWhile_run hindent (by simp [Text.isIndent])
      unfold anchorAt?
      rw [hcut, Text.after?_append]
      dsimp only
      rw [if_pos hblank, Option.isSome_map, clauseAhead?_isSome_iff]
      exact ⟨between, rest, rfl, h.no_semicolon, by rw [hhead]; exact hboundary, hclause⟩

/-! ## Lists without quotes -/

/-- A cut of a text lies in front of a list in braces, inside of it or behind it. -/
lemma brace_cut {front names closed x y : List Char}
    (h : front ++ '\x7b' :: (names ++ '\x7d' :: closed) = x ++ y) :
    (∃ more, front = x ++ more ∧ y = more ++ '\x7b' :: (names ++ '\x7d' :: closed)) ∨
    (∃ left right, names = left ++ right ∧ x = front ++ '\x7b' :: left ∧
      y = right ++ '\x7d' :: closed) ∨
    ∃ more, x = front ++ '\x7b' :: (names ++ '\x7d' :: more) ∧ closed = more ++ y := by
  rcases List.append_eq_append_iff.mp h with ⟨s, rfl, hs⟩ | ⟨s, rfl, hs⟩
  · cases s with
    | nil => exact .inl ⟨[], by simp, hs.symm⟩
    | cons c s =>
      obtain ⟨rfl, hinner⟩ := List.cons.inj hs
      rcases List.append_eq_append_iff.mp hinner with ⟨t, rfl, ht⟩ | ⟨t, rfl, ht⟩
      · cases t with
        | nil => exact .inr (.inl ⟨names, [], by simp, by simp, ht.symm⟩)
        | cons d t =>
          obtain ⟨rfl, rfl⟩ := List.cons.inj ht
          exact .inr (.inr ⟨t, rfl, rfl⟩)
      · exact .inr (.inl ⟨s, t, rfl, rfl, ht⟩)
  · exact .inl ⟨s, rfl, hs⟩

section Replace

variable {specifier text front lead between clause after : List Char}

/-- A clause ends with a quote, and it has no closing brace. -/
lemma AnchorIn.clause_ends (h : AnchorIn specifier text front lead between clause after)
    (hspecifier : '\x7d' ∉ specifier) :
    (∃ more closing, clause = more ++ [closing] ∧ isImportQuote closing = true) ∧
      '\x7d' ∉ clause := by
  obtain ⟨gap, opening, closing, rfl, hgap, hopening, hclosing⟩ := h.clause_eq
  refine ⟨⟨_, closing, rfl, hclosing⟩, ?_⟩
  simp only [List.mem_append, List.mem_cons, List.not_mem_nil, or_false, not_or]
  refine ⟨⟨⟨by decide, ?_⟩, ?_, ?_⟩, ?_⟩
  · intro hmem
    exact absurd (hgap _ hmem) (by decide)
  · rintro rfl
    exact absurd hopening (by decide)
  · exact hspecifier
  · rintro rfl
    exact absurd hclosing (by decide)

/-- The lead of an anchor has no braces. -/
lemma AnchorIn.not_mem_lead (h : AnchorIn specifier text front lead between clause after) :
    '\x7b' ∉ lead ∧ '\x7d' ∉ lead := by
  obtain ⟨indent, blank, rfl, hindent, hblank⟩ := h.lead_eq
  have hno : ∀ c, Text.isBlank c = false → c ∉ "import".toList →
      c ∉ indent ++ "import".toList ++ [blank] := by
    intro c hc himport hmem
    simp only [List.mem_append, List.mem_singleton] at hmem
    rcases hmem with (hmem | hmem) | rfl
    · rw [Text.isBlank_of_isIndent (hindent c hmem)] at hc
      exact Bool.noConfusion hc
    · exact himport hmem
    · rw [hblank] at hc
      exact Bool.noConfusion hc
  exact ⟨hno _ (by decide) (by decide), hno _ (by decide) (by decide)⟩

/-- **Another list without a semicolon of its own leaves an anchor,** if the list has no quote. The
clause of the anchor stands in front of the list or behind it. -/
lemma AnchorIn.replace (h : AnchorIn specifier text front lead between clause after)
    (hspecifier : '\x7d' ∉ specifier) {start names names' closed : List Char}
    (htext : text = start ++ '\x7b' :: (names ++ '\x7d' :: closed))
    (hquote : ∀ c ∈ names, isImportQuote c = false) (hfeed : '\n' ∉ names)
    (hsemicolon : ';' ∉ names → ';' ∉ names') :
    Anchored specifier (start ++ '\x7b' :: (names' ++ '\x7d' :: closed)) := by
  obtain ⟨⟨body, closing, hclause, hclosing⟩, hbrace⟩ := h.clause_ends hspecifier
  have hwhole : start ++ '\x7b' :: (names ++ '\x7d' :: closed)
      = (front ++ (lead ++ (between ++ clause))) ++ after := by
    rw [← htext, h.text_eq]
    simp only [List.append_assoc]
  rcases brace_cut hwhole with ⟨more, rfl, rfl⟩ | ⟨left, right, rfl, hinside, -⟩ | ⟨more, hbehind, rfl⟩
  · -- the list comes behind the clause
    refine ⟨front, lead, between, clause, more ++ '\x7b' :: (names' ++ '\x7d' :: closed), ?_,
      h.line_start, h.lead_eq, h.no_semicolon, h.boundary, h.clause_eq⟩
    simp only [List.append_assoc]
  · -- the clause would end inside of the list
    exfalso
    have hends : (front ++ (lead ++ (between ++ body))) ++ [closing] = start ++ '\x7b' :: left := by
      rw [← hinside, hclause]
      simp only [List.append_assoc]
    rcases concat_eq_append_cons hends with ⟨-, rfl, -⟩ | ⟨inner, rfl, -⟩
    · exact absurd hclosing (by decide)
    · rw [hquote closing (by simp)] at hclosing
      exact Bool.noConfusion hclosing
  · have hpassed : (front ++ (lead ++ between)) ++ clause
        = (start ++ '\x7b' :: names) ++ '\x7d' :: more := by simpa using hbehind
    obtain ⟨tail, hbefore, rfl⟩ := Text.exists_of_append_eq hbrace hpassed
    have hhead : start ++ '\x7b' :: (names ++ '\x7d' :: tail) = (front ++ lead) ++ between := by
      simpa using hbefore.symm
    rcases brace_cut hhead with ⟨gap, rfl, rfl⟩ | ⟨left, right, rfl, hinside, -⟩ | ⟨gap, hlead, rfl⟩
    · -- the list stands between `import` and the clause
      have hlast : ∀ list, (lead ++ (gap ++ '\x7b' :: (list ++ '\x7d' :: tail))).getLast?
          = ('\x7d' :: tail).getLast? := by
        intro list
        rw [← List.append_assoc, ← List.cons_append, ← List.append_assoc,
          List.getLast?_append_of_ne_nil _ (by simp)]
      have hboundary := h.boundary
      have hbetween := h.no_semicolon
      refine ⟨front, lead, gap ++ '\x7b' :: (names' ++ '\x7d' :: tail), clause, after, ?_, h.line_start,
        h.lead_eq, ?_, ?_, h.clause_eq⟩
      · simp only [List.append_assoc, List.cons_append]
      · simp only [List.mem_append, List.mem_cons, not_or] at hbetween ⊢
        exact ⟨hbetween.1, hbetween.2.1, hsemicolon hbetween.2.2.1, hbetween.2.2.2⟩
      · rw [hlast] at hboundary ⊢
        exact hboundary
    · -- the line would start inside of the list
      exfalso
      obtain ⟨inner, hfront, rfl⟩ := Text.exists_of_append_eq h.not_mem_lead.1 hinside
      rcases h.line_start with rfl | ⟨before, rfl⟩
      · simp at hfront
      · rcases concat_eq_append_cons hfront with ⟨-, hsame, -⟩ | ⟨more, rfl, -⟩
        · exact absurd hsame (by decide)
        · exact hfeed (by simp)
    · -- the list comes in front of the line
      have hpassed : front ++ lead = (start ++ '\x7b' :: names) ++ '\x7d' :: gap := by simpa using hlead
      obtain ⟨line, hfront, rfl⟩ := Text.exists_of_append_eq h.not_mem_lead.2 hpassed
      refine ⟨start ++ '\x7b' :: (names' ++ '\x7d' :: line), lead, between, clause, after, ?_, ?_,
        h.lead_eq, h.no_semicolon, h.boundary, h.clause_eq⟩
      · simp only [List.append_assoc, List.cons_append]
      · rcases h.line_start with rfl | ⟨before, rfl⟩
        · simp at hfront
        · rcases concat_eq_append_cons hfront with ⟨-, hsame, -⟩ | ⟨inner, rfl, -⟩
          · exact absurd hsame (by decide)
          · exact .inr ⟨start ++ '\x7b' :: (names' ++ '\x7d' :: inner), by simp⟩

end Replace

/-- No named import from the module has a quote in its list. -/
def PlainLists (specifier text : List Char) : Prop :=
  ∀ line ∈ Text.lineStarts text, ∀ named, namedAt? specifier line = some named →
    ∀ c ∈ named.names, isImportQuote c = false

/-- The line of a named import is one of the text. -/
lemma ListAt.line_mem {specifier text start opening names closed : List Char}
    (h : ListAt specifier text start opening names closed) :
    opening ++ (names ++ '\x7d' :: closed) ∈ Text.lineStarts text := by
  rw [h.text_eq, List.append_assoc]
  exact Text.mem_lineStarts_of_front h.line_start

/-- Names bring no quote into a list. -/
lemma plain_extendedList {names : List Char} (hnames : ∀ c ∈ names, isImportQuote c = false)
    {symbols : List (List Char)} (hsymbols : ∀ symbol ∈ symbols, IsName symbol) :
    ∀ c ∈ extendedList names symbols, isImportQuote c = false := by
  intro c hc
  rw [Bool.eq_false_iff]
  intro hquote
  have hnot : c ∉ names := by
    intro hmem
    rw [hnames c hmem] at hquote
    exact Bool.noConfusion hquote
  simp only [isImportQuote, Bool.or_eq_true, beq_iff_eq] at hquote
  rcases hquote with rfl | rfl
  · exact not_mem_extendedList hnot hsymbols (by decide) (by decide) (by decide) hc
  · exact not_mem_extendedList hnot hsymbols (by decide) (by decide) (by decide) hc

section Extend

variable {m text new : List Char} {symbols : List (List Char)}
  (hsymbols : ∀ symbol ∈ symbols, IsName symbol) (hplain : PlainLists m text)
  (h : extend? m symbols text = some new)
include hsymbols hplain h

/-- Lists without quotes stay so. -/
lemma PlainLists.extend? (hm : PlainSpecifier m) {m' : List Char} (hm' : PlainSpecifier m')
    (hplain' : PlainLists m' text) : PlainLists m' new := by
  obtain ⟨start, opening, names, closed, hlist, rfl⟩ := extend?_eq_some h
  have hnames := hplain _ hlist.line_mem _ hlist.namedAt?
  intro line hline named hnamed
  have hnew := hlist.extended hsymbols
  rcases hlist.named_line hm hm' hnew.no_brace hnew.no_lineFeed hline hnamed with
    ⟨-, hown⟩ | ⟨other, hother, named', hnamed', hsame⟩
  · rw [hown]
    exact plain_extendedList hnames hsymbols
  · rw [← hsame]
    exact hplain' other hother named' hnamed'

/-- **A text with an anchor has one after a list without quotes was extended.** -/
lemma anchored_extend? {anchor : List Char} (hanchor : '\x7d' ∉ anchor)
    (hanchored : Anchored anchor text) : Anchored anchor new := by
  obtain ⟨start, opening, names, closed, hlist, rfl⟩ := extend?_eq_some h
  obtain ⟨before, hbefore⟩ := hlist.opening_ends
  obtain ⟨front, lead, between, clause, after, hin⟩ := hanchored
  have hcut : ∀ list, start ++ opening ++ (list ++ '\x7d' :: closed)
      = before ++ '\x7b' :: (list ++ '\x7d' :: closed) := by
    intro list
    rw [hbefore, List.append_assoc, List.singleton_append]
  rw [hcut]
  apply hin.replace hanchor (hlist.text_eq.trans (hcut names))
  · exact hplain _ hlist.line_mem _ hlist.namedAt?
  · exact hlist.no_lineFeed
  · intro hsemicolon
    exact not_mem_extendedList hsemicolon hsymbols (by decide) (by decide) (by decide)

end Extend

/-- **The anchor is still there when all lists are extended,** and the lists have no quotes. -/
lemma anchored_extendAll {list : List Addition} (hlist : ∀ addition ∈ list, addition.IsWritable)
    {text : List Char} (hplain : ∀ addition ∈ list, PlainLists addition.specifier.toList text)
    {anchor : List Char} (hanchor : '\x7d' ∉ anchor) (hanchored : Anchored anchor text) :
    Anchored anchor (extendAll list text).1.text ∧
      ∀ addition ∈ list, PlainLists addition.specifier.toList (extendAll list text).1.text := by
  apply extendAll_keeps (P := fun new => Anchored anchor new ∧
    ∀ addition ∈ list, PlainLists addition.specifier.toList new) _ ⟨hanchored, hplain⟩
  rintro addition hmem text new hextend ⟨hanchored, hplain⟩
  have hsymbols := (hlist addition hmem).symbols
  refine ⟨anchored_extend? hsymbols (hplain addition hmem) hextend hanchor hanchored, ?_⟩
  intro other hother
  exact PlainLists.extend? hsymbols (hplain addition hmem) hextend (hlist addition hmem).specifier
    (hlist other hother).specifier (hplain other hother)

end CachedRoutes.Import
