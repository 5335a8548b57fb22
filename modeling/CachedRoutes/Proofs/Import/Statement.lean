import CachedRoutes.Import.Statement
import CachedRoutes.Proofs.Text.Lines

/-!
# The form of import statements

What the two recognisers accept, as a form of the text.

* **Named imports.** `namedAt?_eq_some_iff`: indentation, `import`, a brace list on one line, and a
  `from` clause with the module. Between two line feeds of such a statement only blanks stand before
  the next brace, `from` or quote, so no other statement can start inside of one
  (`namedAt?_statement`).
* **One module each.** `specifier_unique`: a `from` clause names one module, as long as specifiers
  have no quotes.
* **Anchors.** `anchor?_ends`: an anchor ends with a quote and, in the same line, spaces, tabs and a
  semicolon.
-/

namespace CachedRoutes.Import

/-- A specifier that can stand between quotes on one line. -/
structure PlainSpecifier (specifier : List Char) : Prop where
  /-- There is no quote in it. -/
  no_quote : ∀ c ∈ specifier, isImportQuote c = false
  /-- There is no line feed in it. -/
  no_lineFeed : '\n' ∉ specifier

/-- A specifier without quotes and line feeds is plain. -/
lemma plainSpecifier_of_all {specifier : List Char}
    (h : specifier.all (fun c => !isImportQuote c && c != '\n') = true) :
    PlainSpecifier specifier := by
  simp only [List.all_eq_true, Bool.and_eq_true, Bool.not_eq_true', bne_iff_ne] at h
  exact ⟨fun c hc => (h c hc).1, fun hmem => (h _ hmem).2 rfl⟩

/-- The quotes of specifiers are no blanks. -/
lemma isBlank_of_isImportQuote {c : Char} (h : isImportQuote c = true) : Text.isBlank c = false := by
  simp only [isImportQuote, Bool.or_eq_true, beq_iff_eq] at h
  rcases h with rfl | rfl <;> decide

/-! ## From clauses -/

/-- A specifier is found where it stands between quotes, which need not be the same. -/
lemma quotedModule?_eq_some_iff {specifier text after : List Char} {quote : Char} :
    quotedModule? specifier text = some (quote, after) ↔
      ∃ closing, text = quote :: specifier ++ closing :: after ∧
        isImportQuote quote = true ∧ isImportQuote closing = true := by
  constructor
  · intro h
    unfold quotedModule? at h
    split at h
    · split at h
      · rename_i opening rest hopening
        split at h
        · rename_i closing tail ha
          split at h
          · rename_i hclosing
            obtain ⟨rfl, rfl⟩ := Prod.mk.inj (Option.some.inj h)
            refine ⟨closing, ?_, hopening, hclosing⟩
            rw [Text.after?_eq_some_iff.mp ha, List.cons_append]
          · simp at h
        · simp at h
      · simp at h
    · simp at h
  · rintro ⟨closing, rfl, hopening, hclosing⟩
    simp [quotedModule?, hopening, hclosing]

/-- A clause is found where `from`, blanks and the quoted specifier stand. -/
lemma fromClause?_eq_some_iff {specifier text after : List Char} {quote : Char} :
    fromClause? specifier text = some (quote, after) ↔
      ∃ gap closing, text = "from".toList ++ gap ++ quote :: specifier ++ closing :: after ∧
        (∀ c ∈ gap, Text.isBlank c = true) ∧
        isImportQuote quote = true ∧ isImportQuote closing = true := by
  constructor
  · intro h
    unfold fromClause? at h
    split at h
    · rename_i rest ha
      obtain ⟨closing, htrim, hopening, hclosing⟩ := quotedModule?_eq_some_iff.mp h
      obtain ⟨gap, hrest, hgap, -⟩ := Text.trimStart_gap rest
      refine ⟨gap, closing, ?_, hgap, hopening, hclosing⟩
      rw [Text.after?_eq_some_iff.mp ha, hrest, htrim]
      simp
    · simp at h
  · rintro ⟨gap, closing, rfl, hgap, hopening, hclosing⟩
    have htrim : Text.trimStart (gap ++ (quote :: specifier ++ closing :: after))
        = quote :: specifier ++ closing :: after :=
      Text.trimStart_append hgap (by simpa using isBlank_of_isImportQuote hopening)
    have hcut : Text.after? "from".toList
        ("from".toList ++ gap ++ quote :: specifier ++ closing :: after)
          = some (gap ++ (quote :: specifier ++ closing :: after)) :=
      Text.after?_eq_some_iff.mpr (by simp)
    unfold fromClause?
    simp only [hcut, htrim]
    exact quotedModule?_eq_some_iff.mpr ⟨closing, rfl, hopening, hclosing⟩

/-- Up to the first quote, two texts that are equal with what follows are equal. -/
lemma eq_of_append_quote {a b x y : List Char} {p q : Char}
    (ha : ∀ c ∈ a, isImportQuote c = false) (hb : ∀ c ∈ b, isImportQuote c = false)
    (hp : isImportQuote p = true) (hq : isImportQuote q = true)
    (h : a ++ p :: x = b ++ q :: y) : a = b := by
  induction a generalizing b with
  | nil =>
    cases b with
    | nil => rfl
    | cons d b =>
      obtain ⟨rfl, -⟩ := List.cons.inj h
      rw [hb p (by simp)] at hp
      exact Bool.noConfusion hp
  | cons c a ih =>
    cases b with
    | nil =>
      obtain ⟨rfl, -⟩ := List.cons.inj h
      rw [ha c (by simp)] at hq
      exact Bool.noConfusion hq
    | cons d b =>
      obtain ⟨rfl, htail⟩ := List.cons.inj h
      rw [ih (fun x hx => ha x (by simp [hx])) (fun x hx => hb x (by simp [hx])) htail]

/-- A `from` clause names one module. -/
lemma specifier_unique {m m' text after after' : List Char} {q q' : Char}
    (hm : PlainSpecifier m) (hm' : PlainSpecifier m')
    (h : fromClause? m text = some (q, after)) (h' : fromClause? m' text = some (q', after')) :
    m = m' := by
  unfold fromClause? at h h'
  split at h
  · rename_i rest ha
    rw [ha] at h'
    obtain ⟨closing, htext, -, hclosing⟩ := quotedModule?_eq_some_iff.mp h
    obtain ⟨closing', htext', -, hclosing'⟩ := quotedModule?_eq_some_iff.mp h'
    rw [htext] at htext'
    exact eq_of_append_quote hm.no_quote hm'.no_quote hclosing hclosing' (List.cons.inj htext').2
  · simp at h

/-! ## Named imports -/

/-- The form of a named import from the module. -/
lemma namedAt?_eq_some_iff {specifier line : List Char} {named : Named} :
    namedAt? specifier line = some named ↔
      ∃ indent gap closed, line = indent ++ "import".toList ++ gap ++ '\x7b' :: named.names
          ++ '\x7d' :: closed ∧
        named.after = '\x7d' :: closed ∧ (∀ c ∈ indent, Text.isIndent c = true) ∧
        (∀ c ∈ gap, Text.isBlank c = true) ∧ '\x7d' ∉ named.names ∧ '\n' ∉ named.names ∧
        (fromClause? specifier (Text.trimStart closed)).isSome = true := by
  constructor
  · intro h
    unfold namedAt? at h
    obtain ⟨rest, hrest, h⟩ := Option.bind_eq_some_iff.mp h
    split at h
    · rename_i inner htrim
      dsimp only at h
      have hno : ∀ c ∈ inner.takeWhile fun c => c != '\x7d' && c != '\n',
          c ≠ '\x7d' ∧ c ≠ '\n' := by
        intro c hc
        simpa using List.mem_takeWhile_imp hc
      have hcut : inner.takeWhile (fun c => c != '\x7d' && c != '\n') ++ inner.drop
          (inner.takeWhile fun c => c != '\x7d' && c != '\n').length = inner :=
        List.prefix_iff_eq_append.mp (List.takeWhile_prefix _)
      generalize inner.takeWhile (fun c => c != '\x7d' && c != '\n') = names at h hno hcut
      split at h
      · rename_i closed hclosed
        obtain ⟨clause, hclause, h⟩ := Option.bind_eq_some_iff.mp h
        obtain rfl := Option.some.inj h
        obtain ⟨gap, hgap, hblank, -⟩ := Text.trimStart_gap rest
        refine ⟨line.takeWhile Text.isIndent, gap, closed, ?_, rfl, ?_, hblank, ?_, ?_, ?_⟩
        · calc line = line.takeWhile Text.isIndent ++ line.dropWhile Text.isIndent :=
                (List.takeWhile_append_dropWhile).symm
            _ = line.takeWhile Text.isIndent ++ ("import".toList ++ (gap ++ '\x7b' :: inner)) := by
                rw [Text.after?_eq_some_iff.mp hrest, ← htrim, ← hgap]
            _ = _ := by rw [← hcut, hclosed]; simp
        · intro c hc
          exact List.mem_takeWhile_imp hc
        · intro hc
          exact (hno _ hc).1 rfl
        · intro hc
          exact (hno _ hc).2 rfl
        · simp [hclause]
      · simp at h
    · simp at h
  · rintro ⟨indent, gap, closed, rfl, hafter, hindent, hgap, hbrace, hfeed, hclause⟩
    obtain ⟨names, after⟩ := named
    subst hafter
    obtain ⟨clause, hclause⟩ := Option.isSome_iff_exists.mp hclause
    have hline : indent ++ "import".toList ++ gap ++ '\x7b' :: names ++ '\x7d' :: closed
        = indent ++ ("import".toList ++ (gap ++ '\x7b' :: (names ++ '\x7d' :: closed))) := by
      simp
    have hcut : (indent ++ ("import".toList
        ++ (gap ++ '\x7b' :: (names ++ '\x7d' :: closed)))).dropWhile Text.isIndent
          = "import".toList ++ (gap ++ '\x7b' :: (names ++ '\x7d' :: closed)) :=
      dropWhile_run hindent (by simp [Text.isIndent])
    have htrim : Text.trimStart (gap ++ '\x7b' :: (names ++ '\x7d' :: closed))
        = '\x7b' :: (names ++ '\x7d' :: closed) :=
      Text.trimStart_append hgap (by simp [Text.isBlank])
    have htake : (names ++ '\x7d' :: closed).takeWhile (fun c => c != '\x7d' && c != '\n')
        = names := by
      rw [List.takeWhile_append_of_pos]
      · simp
      · intro c hc
        have h₁ : c ≠ '\x7d' := fun h => hbrace (h ▸ hc)
        have h₂ : c ≠ '\n' := fun h => hfeed (h ▸ hc)
        simp [h₁, h₂]
    unfold namedAt?
    rw [hline, hcut, Text.after?_append]
    simp [htrim, htake, hclause]

/-- A line with a named import starts with an `i`, its indentation apart. -/
lemma namedAt?_starts {specifier line : List Char} {named : Named}
    (h : namedAt? specifier line = some named) : ∃ rest, Text.trimStart line = 'i' :: rest := by
  obtain ⟨indent, gap, closed, rfl, -, hindent, -⟩ := namedAt?_eq_some_iff.mp h
  refine ⟨"mport".toList ++ (gap ++ '\x7b' :: (named.names ++ '\x7d' :: closed)), ?_⟩
  rw [← Text.trimStart_append (fun c hc => Text.isBlank_of_isIndent (hindent c hc))
    (show ∀ c ∈ ('i' :: ("mport".toList ++ (gap ++ '\x7b' :: (named.names ++ '\x7d' ::
      closed)))).head?, Text.isBlank c = false by simp [Text.isBlank])]
  simp

/-- A line is a named import from one module at most. -/
lemma namedAt?_unique {m m' line : List Char} {named named' : Named} (hm : PlainSpecifier m)
    (hm' : PlainSpecifier m') (h : namedAt? m line = some named)
    (h' : namedAt? m' line = some named') : m = m' := by
  unfold namedAt? at h h'
  obtain ⟨rest, hrest, h⟩ := Option.bind_eq_some_iff.mp h
  rw [hrest] at h'
  split at h
  · rename_i inner htrim
    dsimp only at h
    split at h
    · rename_i closed hclosed
      obtain ⟨⟨quote, after⟩, hclause, -⟩ := Option.bind_eq_some_iff.mp h
      simp only [Option.bind_eq_bind, Option.bind_some, htrim, hclosed] at h'
      obtain ⟨⟨quote', after'⟩, hclause', -⟩ := Option.bind_eq_some_iff.mp h'
      exact specifier_unique hm hm' hclause hclause'
    · simp at h
  · simp at h

/-! ## No statement starts inside of another one -/

/-- After each line feed of the text comes a character that is no blank, and the first such
character is not `d`. -/
def NoLineWith (d : Char) (text : List Char) : Prop :=
  ∀ before after, text = before ++ '\n' :: after →
    ∃ c rest, Text.trimStart after = c :: rest ∧ c ≠ d

/-- In a text of one line there is no line to look at. -/
lemma noLineWith_of_not_mem {d : Char} {text : List Char} (h : '\n' ∉ text) :
    NoLineWith d text := by
  rintro before after rfl
  simp at h

/-- A part of the first line in front does not matter. -/
lemma NoLineWith.append_left {d : Char} {a b : List Char} (ha : '\n' ∉ a) (hb : NoLineWith d b) :
    NoLineWith d (a ++ b) := by
  intro before after h
  rcases List.append_eq_append_iff.mp h with ⟨as, rfl, has⟩ | ⟨bs, rfl, hbs⟩
  · exact hb as after has
  · cases bs with
    | nil => exact hb [] after hbs.symm
    | cons c bs =>
      obtain ⟨rfl, -⟩ := List.cons.inj hbs
      simp at ha

/-- Blanks in front of a character that is none. -/
lemma NoLineWith.gap {d c : Char} {gap rest : List Char} (hgap : ∀ c ∈ gap, Text.isBlank c = true)
    (hc : Text.isBlank c = false) (hcd : c ≠ d) (h : NoLineWith d (c :: rest)) :
    NoLineWith d (gap ++ c :: rest) := by
  intro before after hsplit
  rcases List.append_eq_append_iff.mp hsplit with ⟨as, rfl, has⟩ | ⟨bs, rfl, hbs⟩
  · exact h as after has
  · cases bs with
    | nil => exact h [] after hbs.symm
    | cons b bs =>
      -- the line feed is one of the blanks, and `c` is what comes after the others
      obtain ⟨rfl, rfl⟩ := List.cons.inj hbs
      refine ⟨c, rest, ?_, hcd⟩
      refine Text.trimStart_append (fun x hx => hgap x (by simp [hx])) ?_
      simpa using hc

/-- The parts of a named import up to the closing quote of its module. What follows makes no
difference. -/
lemma namedAt?_parts {specifier line : List Char} {named : Named}
    (h : namedAt? specifier line = some named) :
    ∃ indent gap gap₂ gap₃ quote closing after,
      line = indent ++ "import".toList ++ (gap ++ '\x7b' :: (named.names ++ '\x7d' :: (gap₂ ++
        ("from".toList ++ (gap₃ ++ quote :: (specifier ++ [closing])))))) ++ after ∧
      (∀ c ∈ indent, Text.isIndent c = true) ∧ (∀ c ∈ gap ++ gap₂ ++ gap₃, Text.isBlank c = true) ∧
      isImportQuote quote = true ∧ isImportQuote closing = true ∧ '\n' ∉ named.names ∧
      ∀ more, ∃ named', namedAt? specifier (indent ++ "import".toList ++ (gap ++ '\x7b' :: (named.names
        ++ '\x7d' :: (gap₂ ++ ("from".toList ++ (gap₃ ++ quote :: (specifier ++ [closing])))))) ++ more)
          = some named' ∧ named'.names = named.names := by
  obtain ⟨indent, gap, closed, rfl, -, hindent, hgap, hbrace, hfeed, hclause⟩ :=
    namedAt?_eq_some_iff.mp h
  obtain ⟨⟨quote, after⟩, hclause⟩ := Option.isSome_iff_exists.mp hclause
  obtain ⟨gap₂, hclosed, hgap₂, -⟩ := Text.trimStart_gap closed
  obtain ⟨gap₃, closing, htrim, hgap₃, hquote, hclosing⟩ := fromClause?_eq_some_iff.mp hclause
  refine ⟨indent, gap, gap₂, gap₃, quote, closing, after, ?_, hindent, ?_, hquote, hclosing, hfeed, ?_⟩
  · rw [hclosed, htrim]
    simp
  · intro c hc
    simp only [List.mem_append] at hc
    rcases hc with (hc | hc) | hc
    · exact hgap c hc
    · exact hgap₂ c hc
    · exact hgap₃ c hc
  · intro more
    refine ⟨⟨named.names, _⟩, namedAt?_eq_some_iff.mpr ⟨indent, gap,
      gap₂ ++ ("from".toList ++ (gap₃ ++ quote :: (specifier ++ closing :: more))),
      by simp, rfl, hindent, hgap, hbrace, hfeed, ?_⟩, rfl⟩
    rw [Text.trimStart_append hgap₂ (by simp [Text.isBlank]), Option.isSome_iff_exists]
    exact ⟨(quote, more), fromClause?_eq_some_iff.mpr ⟨gap₃, closing, by simp, hgap₃, hquote,
      hclosing⟩⟩

/-- **A named import is recognised by a beginning of its line**, whatever follows, and no line
inside of that beginning starts with an `i`. -/
lemma namedAt?_statement {specifier line : List Char} {named : Named}
    (hspec : PlainSpecifier specifier) (h : namedAt? specifier line = some named) :
    ∃ statement tail, line = statement ++ tail ∧ NoLineWith 'i' statement ∧
      ∀ more, ∃ named', namedAt? specifier (statement ++ more) = some named' ∧
        named'.names = named.names := by
  obtain ⟨indent, gap, gap₂, gap₃, quote, closing, after, rfl, hindent, hgaps, hquote, hclosing, hfeed,
    hmore⟩ := namedAt?_parts h
  refine ⟨_, after, rfl, ?_, hmore⟩
  simp only [List.forall_mem_append] at hgaps
  obtain ⟨⟨hgap, hgap₂⟩, hgap₃⟩ := hgaps
  have hend : '\n' ∉ specifier ++ [closing] := by
    intro hmem
    rcases List.mem_append.mp hmem with hmem | hmem
    · exact hspec.no_lineFeed hmem
    · obtain rfl := List.mem_singleton.mp hmem
      exact absurd hclosing (by decide)
  have hquoted : NoLineWith 'i' (quote :: (specifier ++ [closing])) := by
    refine noLineWith_of_not_mem ?_
    intro hmem
    rcases List.mem_cons.mp hmem with rfl | hmem
    · exact absurd hquote (by decide)
    · exact hend hmem
  have hquote' : quote ≠ 'i' := by
    rintro rfl
    exact absurd hquote (by decide)
  refine NoLineWith.append_left ?_ (NoLineWith.gap hgap (by decide) (by decide) ?_)
  · intro hmem
    rcases List.mem_append.mp hmem with hmem | hmem
    · exact absurd (hindent _ hmem) (by decide)
    · exact absurd hmem (by decide)
  · have hnames : '\n' ∉ ('\x7b' :: named.names) := by simpa using hfeed
    rw [← List.cons_append]
    refine NoLineWith.append_left hnames ?_
    have hclose : '\n' ∉ ['\x7d'] := by decide
    have hfrom : '\n' ∉ "from".toList := by decide
    refine NoLineWith.append_left hclose (NoLineWith.gap hgap₂ (by decide) (by decide) ?_)
    exact NoLineWith.append_left hfrom
      (NoLineWith.gap hgap₃ (isBlank_of_isImportQuote hquote) hquote' hquoted)

/-- A named import in front of a line that starts with an `i` ends in front of that line, so what
stands from there on does not matter to it. -/
lemma namedAt?_before_line {specifier x s : List Char} {named : Named}
    (hspec : PlainSpecifier specifier) (hs : ∃ rest, Text.trimStart s = 'i' :: rest)
    (s' : List Char) (h : namedAt? specifier (x ++ '\n' :: s) = some named) :
    ∃ named', namedAt? specifier (x ++ '\n' :: s') = some named' ∧ named'.names = named.names := by
  obtain ⟨statement, tail, hline, hno, hmore⟩ := namedAt?_statement hspec h
  have hsplit : (x ++ ['\n']) ++ s = statement ++ tail := by simpa using hline
  rcases List.append_eq_append_iff.mp hsplit with ⟨v, rfl, rfl⟩ | ⟨v, hx, -⟩
  · -- the line would start inside of the statement
    obtain ⟨c, rest, htrim, hc⟩ := hno x v (by simp)
    obtain ⟨rest', hs⟩ := hs
    rw [Text.trimStart_append_of_cons htrim] at hs
    exact absurd (List.cons.inj hs).1 hc
  · obtain ⟨named', hnamed', hnames⟩ := hmore (v ++ s')
    refine ⟨named', ?_, hnames⟩
    rw [← hnamed', ← List.append_assoc, ← hx]
    simp

/-! ## Anchors -/

/-- The nearest `from` clause ends with its module between quotes. -/
lemma clauseAhead?_ends {specifier text after : List Char} {before quote : Char}
    (h : clauseAhead? specifier before text = some (quote, after)) :
    isImportQuote quote = true ∧ ∃ a closing, text = a ++ (quote :: specifier ++ closing :: after) ∧
      isImportQuote closing = true := by
  induction text generalizing before with
  | nil => simp [clauseAhead?] at h
  | cons c rest ih =>
    rw [clauseAhead?] at h
    split at h
    · rename_i clause hclause
      obtain rfl := Option.some.inj h
      split at hclause
      · obtain ⟨gap, closing, htext, -, hquote, hclosing⟩ := fromClause?_eq_some_iff.mp hclause
        exact ⟨hquote, "from".toList ++ gap, closing, by simpa using htext, hclosing⟩
      · simp at hclause
    · split at h
      · simp at h
      · obtain ⟨hquote, a, closing, rfl, hclosing⟩ := ih h
        exact ⟨hquote, c :: a, closing, rfl, hclosing⟩

/-- The quote of an anchor is one. -/
lemma anchor?_quote {specifier text : List Char} {anchor : Anchor}
    (h : anchor? specifier text = some anchor) : isImportQuote anchor.quote = true := by
  obtain ⟨line, -, hanchor⟩ := List.exists_of_findSome?_eq_some h
  unfold anchorAt? at hanchor
  split at hanchor
  · split at hanchor
    · obtain ⟨⟨quote, after⟩, hclause, hof⟩ := Option.map_eq_some_iff.mp hanchor
      have hquote : anchor.quote = quote := by
        rw [← hof]
        dsimp only
        unfold Anchor.ofClause
        split <;> rfl
      rw [hquote]
      exact (clauseAhead?_ends hclause).1
    · simp at hanchor
  · simp at hanchor

/-- Behind the clause of an anchor there are spaces, tabs and a semicolon. -/
lemma ofClause_after (quote : Char) (rest : List Char) :
    ∃ tail, rest = tail ++ (Anchor.ofClause quote rest).after ∧
      ∀ c ∈ tail, Text.isIndent c = true ∨ c = ';' := by
  have hindent : ∀ c ∈ rest.takeWhile Text.isIndent, Text.isIndent c = true ∨ c = ';' :=
    fun c hc => .inl (List.mem_takeWhile_imp hc)
  have hsplit := List.takeWhile_append_dropWhile (p := Text.isIndent) (l := rest)
  unfold Anchor.ofClause
  split
  · rename_i after hafter
    refine ⟨rest.takeWhile Text.isIndent ++ [';'], ?_, ?_⟩
    · rw [hafter] at hsplit
      simpa using hsplit.symm
    · intro c hc
      rcases List.mem_append.mp hc with hc | hc
      · exact hindent c hc
      · exact .inr (List.mem_singleton.mp hc)
  · exact ⟨_, hsplit.symm, hindent⟩

/-- The form of a line with an anchor: `import`, indented, and behind the module in quotes only spaces,
tabs and a semicolon. -/
lemma anchorAt?_eq_some {specifier line : List Char} {anchor : Anchor}
    (h : anchorAt? specifier line = some anchor) :
    ∃ indent body opening quote tail,
      line = indent ++ "import".toList ++ (body ++ opening :: specifier)
          ++ (quote :: tail ++ anchor.after) ∧
        (∀ c ∈ indent, Text.isIndent c = true) ∧ isImportQuote opening = true ∧
        isImportQuote quote = true ∧ ∀ c ∈ tail, Text.isIndent c = true ∨ c = ';' := by
  unfold anchorAt? at h
  split at h
  · rename_i c rest ha
    split at h
    · obtain ⟨⟨opening, after⟩, hclause, rfl⟩ := Option.map_eq_some_iff.mp h
      obtain ⟨hopening, a, closing, rfl, hclosing⟩ := clauseAhead?_ends hclause
      obtain ⟨tail, htail, hchars⟩ := ofClause_after opening after
      refine ⟨line.takeWhile Text.isIndent, c :: a, opening, closing, tail, ?_, ?_, hopening, hclosing,
        hchars⟩
      · have hwhole := List.takeWhile_append_dropWhile (p := Text.isIndent) (l := line)
        rw [Text.after?_eq_some_iff.mp ha] at hwhole
        conv_lhs => rw [← hwhole, htail]
        simp
      · intro d hd
        exact List.mem_takeWhile_imp hd
    · simp at h
  · simp at h

/-- An anchor has its module in quotes in front of what follows. -/
lemma anchor?_module {specifier text : List Char} {anchor : Anchor}
    (h : anchor? specifier text = some anchor) :
    ∃ a opening quote rest,
      text = (a ++ opening :: specifier) ++ (quote :: rest ++ anchor.after) ∧
        isImportQuote opening = true ∧ isImportQuote quote = true ∧
        ∀ c ∈ rest, Text.isIndent c = true ∨ c = ';' := by
  obtain ⟨line, hline, hanchor⟩ := List.exists_of_findSome?_eq_some h
  obtain ⟨start, rfl, -⟩ := Text.exists_front_of_mem_lineStarts hline
  obtain ⟨indent, body, opening, quote, tail, rfl, -, hopening, hquote, hchars⟩ :=
    anchorAt?_eq_some hanchor
  exact ⟨start ++ (indent ++ "import".toList ++ body), opening, quote, tail, by simp, hopening, hquote,
    hchars⟩

/-- **An anchor ends in its own line:** behind a quote only spaces, tabs and a semicolon stand in
front of what follows. -/
lemma anchor?_ends {specifier text : List Char} {anchor : Anchor}
    (h : anchor? specifier text = some anchor) :
    ∃ a quote rest, text = a ++ (quote :: rest ++ anchor.after) ∧ isImportQuote quote = true ∧
      ∀ c ∈ rest, Text.isIndent c = true ∨ c = ';' := by
  obtain ⟨a, opening, quote, rest, htext, -, hquote, hchars⟩ := anchor?_module h
  exact ⟨a ++ opening :: specifier, quote, rest, htext, hquote, hchars⟩

end CachedRoutes.Import
