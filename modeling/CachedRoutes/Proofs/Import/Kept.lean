import CachedRoutes.Proofs.Import.Once

/-!
# An extended list keeps its names and its place

The symbols go into the list of the first named import from a module. Read again, the first named import
from that module is the same one: it stands where it stood, all around its list is as before, and its
list is the old one with the symbols behind it.

* **Lines in order** (`lineStarts_pairwise`): the later a line starts, the less text is left.
* **The first one** (`firstNamed?`): `firstNamed?_eq_some_iff` says that it is a named import, and
  that no line in front of it starts one.
* **Another list in it** (`ListAt.first_of_first`): a statement that starts in front of another ends in
  front of it too, so that a new list makes no earlier statement.
-/

namespace CachedRoutes.Text

/-- A line behind a line feed is shorter than the text. -/
lemma length_lt_of_mem_afterLineFeeds {line text : List Char} (h : line ∈ afterLineFeeds text) :
    line.length < text.length := by
  obtain ⟨before, rfl⟩ := mem_afterLineFeeds_iff.mp h
  simp only [List.length_append, List.length_cons]
  omega

/-- A line is no longer than the text. -/
lemma length_le_of_mem_lineStarts {line text : List Char} (h : line ∈ lineStarts text) :
    line.length ≤ text.length := by
  rcases List.mem_cons.mp h with rfl | h
  · exact Nat.le_refl _
  · exact Nat.le_of_lt (length_lt_of_mem_afterLineFeeds h)

/-- Lines come in the order in which they start. -/
lemma lineStarts_pairwise (text : List Char) :
    (lineStarts text).Pairwise fun line later => later.length < line.length := by
  rw [lineStarts, List.pairwise_cons]
  refine ⟨fun line hline => length_lt_of_mem_afterLineFeeds hline, ?_⟩
  induction text with
  | nil => exact List.Pairwise.nil
  | cons c rest ih =>
    rw [afterLineFeeds]
    split
    · exact List.pairwise_cons.mpr ⟨fun line hline => length_lt_of_mem_afterLineFeeds hline, ih⟩
    · exact ih

end CachedRoutes.Text

namespace CachedRoutes.Import

/-! ## The first named import -/

/-- The first named import from the module, and the position where its line starts. -/
def firstNamed? (specifier text : List Char) : Option (Nat × Named) :=
  (Text.lineStarts text).findSome? fun line =>
    (namedAt? specifier line).map fun named => (text.length - line.length, named)

/-- It is the one that is extended. -/
lemma named?_eq_map (specifier text : List Char) :
    named? specifier text = (firstNamed? specifier text).map Prod.snd := by
  rw [firstNamed?, List.map_findSome?, named?]
  congr 1
  funext line
  rw [Function.comp_apply, Option.map_map]
  exact Option.map_id'.symm

/-- **The first named import** starts a line, and no line that starts earlier is one. -/
lemma firstNamed?_eq_some_iff {specifier text : List Char} {position : Nat} {named : Named} :
    firstNamed? specifier text = some (position, named) ↔
      ∃ line ∈ Text.lineStarts text, position + line.length = text.length ∧
        namedAt? specifier line = some named ∧
        ∀ other ∈ Text.lineStarts text, line.length < other.length →
          namedAt? specifier other = none := by
  have hordered := Text.lineStarts_pairwise text
  rw [firstNamed?, List.findSome?_eq_some_iff]
  constructor
  · rintro ⟨earlier, line, later, hlines, hnamed, hnone⟩
    obtain ⟨found, hfound, heq⟩ := Option.map_eq_some_iff.mp hnamed
    obtain ⟨rfl, rfl⟩ := Prod.mk.inj heq
    have hline : line ∈ Text.lineStarts text := by simp [hlines]
    refine ⟨line, hline, Nat.sub_add_cancel (Text.length_le_of_mem_lineStarts hline), hfound, ?_⟩
    intro other hother hlonger
    rw [hlines, List.pairwise_append, List.pairwise_cons] at hordered
    rw [hlines, List.mem_append, List.mem_cons] at hother
    rcases hother with hother | rfl | hother
    · exact Option.map_eq_none_iff.mp (hnone other hother)
    · exact absurd hlonger (Nat.lt_irrefl _)
    · exact absurd hlonger (Nat.lt_asymm (hordered.2.1.1 other hother))
  · rintro ⟨line, hline, hposition, hnamed, hnone⟩
    obtain ⟨earlier, later, hlines⟩ := List.append_of_mem hline
    refine ⟨earlier, line, later, hlines, ?_, ?_⟩
    · rw [hnamed, Option.map_some, ← hposition, Nat.add_sub_cancel]
    · intro other hother
      rw [hlines, List.pairwise_append] at hordered
      have hlonger := hordered.2.2 other hother line List.mem_cons_self
      rw [hnone other (by simp [hlines, hother]) hlonger, Option.map_none]

/-! ## Another list in it -/

section Lists

variable {m text start opening names names' closed : List Char}

/-- The first named import, as a cut of the text. -/
lemma listAt_of_firstNamed? {position : Nat} {named : Named}
    (h : firstNamed? m text = some (position, named)) :
    ∃ start opening names closed, ListAt m text start opening names closed ∧
      named = ⟨names, '\x7d' :: closed⟩ ∧ position = start.length := by
  obtain ⟨line, hline, hposition, hnamed, -⟩ := firstNamed?_eq_some_iff.mp h
  obtain ⟨start, opening, closed, hlist, hafter, rfl⟩ := listAt_of_namedAt? hline hnamed
  refine ⟨start, opening, named.names, closed, hlist, by rw [← hafter], ?_⟩
  rw [List.length_append] at hposition
  exact Nat.add_right_cancel hposition

/-- **With another list the first named import is still the first.** -/
lemma ListAt.first_of_first (h : ListAt m text start opening names closed) (hm : PlainSpecifier m)
    (hnew : ListAt m (start ++ opening ++ (names' ++ '\x7d' :: closed)) start opening names' closed)
    (hfirst : firstNamed? m text = some (start.length, ⟨names, '\x7d' :: closed⟩)) :
    firstNamed? m (start ++ opening ++ (names' ++ '\x7d' :: closed))
      = some (start.length, ⟨names', '\x7d' :: closed⟩) := by
  obtain ⟨line, -, hposition, -, hnone⟩ := firstNamed?_eq_some_iff.mp hfirst
  have hline : line.length = (opening ++ (names ++ '\x7d' :: closed)).length := by
    rw [h.text_eq, List.append_assoc, List.length_append] at hposition
    exact Nat.add_left_cancel hposition
  refine firstNamed?_eq_some_iff.mpr ⟨_, hnew.line_mem, ?_, hnew.namedAt?, ?_⟩
  · rw [List.append_assoc start, @List.length_append _ start]
  · intro other hother hlonger
    obtain ⟨front, hcut, hfront⟩ := Text.exists_front_of_mem_lineStarts hother
    rw [List.append_assoc] at hcut
    rcases List.append_eq_append_iff.mp hcut with ⟨more, -, hshort⟩ | ⟨between, hstart, rfl⟩
    · rw [hshort, List.length_append] at hlonger
      omega
    -- the earlier line goes on up to the line feed in front of the statement
    rcases List.eq_nil_or_concat between with rfl | ⟨before, c, rfl⟩
    · exact absurd hlonger (Nat.lt_irrefl _)
    have hends := h.line_start
    rw [hstart] at hends
    obtain rfl := eq_lineFeed_of_front hends
    rw [List.concat_eq_append, List.append_assoc, List.singleton_append,
      Option.eq_none_iff_forall_ne_some]
    intro named hnamed
    obtain ⟨named', hnamed', -⟩ := namedAt?_before_line hm (namedAt?_starts hnew.namedAt?)
      (opening ++ (names ++ '\x7d' :: closed)) hnamed
    have hmem : before ++ '\n' :: (opening ++ (names ++ '\x7d' :: closed)) ∈ Text.lineStarts text := by
      have htext : text = front ++ (before ++ '\n' :: (opening ++ (names ++ '\x7d' :: closed))) := by
        rw [h.text_eq, hstart]
        simp
      rw [htext]
      exact Text.mem_lineStarts_of_front hfront
    have hearlier : line.length
        < (before ++ '\n' :: (opening ++ (names ++ '\x7d' :: closed))).length := by
      rw [hline, @List.length_append _ before, List.length_cons]
      omega
    rw [hnone _ hmem hearlier] at hnamed'
    simp at hnamed'

/-- Its list is the one that is extended. -/
lemma ListAt.extend?_eq (h : ListAt m text start opening names closed)
    (hfirst : firstNamed? m text = some (start.length, ⟨names, '\x7d' :: closed⟩))
    (hne : nameList names ≠ []) (symbols : List (List Char)) :
    extend? m symbols text
      = some (start ++ opening ++ (extendedList names symbols ++ '\x7d' :: closed)) := by
  rw [extend?, named?_eq_map, hfirst, Option.map_some]
  dsimp only
  rw [if_neg (mt List.isEmpty_iff.mp hne), h.text_eq, upTo_append]
  simp [extendedList]

end Lists

/-- **An extended list keeps its names.** Where symbols are added, only the list of the first
named import from the module changes. In the new text the first named import from that module starts at
the same position, and its list reads as the old one and then the symbols. Nothing is added exactly if
there is no such import, or the first one has an empty list. -/
theorem extend?_keeps_names {specifier : List Char} (hspec : PlainSpecifier specifier)
    {symbols : List (List Char)} (hsymbols : ∀ symbol ∈ symbols, Code.IsName symbol)
    (text : List Char) :
    (∀ out, extend? specifier symbols text = some out →
      ∃ position a names names' b,
        text = a ++ names ++ b ∧ out = a ++ names' ++ b ∧
        firstNamed? specifier text = some (position, ⟨names, b⟩) ∧
        firstNamed? specifier out = some (position, ⟨names', b⟩) ∧
        nameList names' = nameList names ++ symbols) ∧
    (extend? specifier symbols text = none ↔
      firstNamed? specifier text = none ∨
        ∃ position named, firstNamed? specifier text = some (position, named) ∧
          nameList named.names = []) := by
  cases hfirst : firstNamed? specifier text with
  | none =>
    have hnone : extend? specifier symbols text = none := by
      rw [extend?, named?_eq_map, hfirst]
      rfl
    refine ⟨fun out hout => ?_, iff_of_true hnone (.inl rfl)⟩
    rw [hnone] at hout
    simp at hout
  | some found =>
    obtain ⟨position, named⟩ := found
    obtain ⟨start, opening, names, closed, hlist, rfl, rfl⟩ := listAt_of_firstNamed? hfirst
    by_cases hempty : nameList names = []
    · have hnone : extend? specifier symbols text = none := by
        rw [extend?_eq_none_iff, named?_eq_map, hfirst]
        intro named hnamed
        rw [← Option.some.inj hnamed]
        exact hempty
      refine ⟨fun out hout => ?_, iff_of_true hnone (.inr ⟨_, _, rfl, hempty⟩)⟩
      rw [hnone] at hout
      simp at hout
    · have hsome := hlist.extend?_eq hfirst hempty symbols
      constructor
      · intro out hout
        rw [hsome] at hout
        obtain rfl := Option.some.inj hout
        refine ⟨start.length, start ++ opening, names, extendedList names symbols, '\x7d' :: closed,
          ?_, ?_, rfl, ?_, nameList_extendedList names hsymbols⟩
        · rw [hlist.text_eq]
          simp
        · simp
        · exact hlist.first_of_first hspec (hlist.extended hsymbols) hfirst
      · rw [hsome]
        refine iff_of_false (by simp) ?_
        rintro (hnone | ⟨position, named, hfound, hnil⟩)
        · simp at hnone
        · rw [← (Prod.mk.inj (Option.some.inj hfound)).2] at hnil
          exact hempty hnil

/-- A list with a comma too many, behind an import from elsewhere and in front of a second list. -/
theorem extend?_keeps_names_commas :
    let text :=
      "import x from 'y'\nimport \x7ba,, b as c\x7d from 'm';\nimport \x7bd\x7d from 'm'".toList
    let out :=
      "import x from 'y'\nimport \x7b a, b as c, e, f \x7d from 'm';\nimport \x7bd\x7d from 'm'".toList
    let symbols := ["e".toList, "f".toList]
    PlainSpecifier ['m'] ∧ (∀ symbol ∈ symbols, Code.IsName symbol) ∧
      extend? ['m'] symbols text = some out ∧
      ∃ position a names names' b,
        text = a ++ names ++ b ∧ out = a ++ names' ++ b ∧
        firstNamed? ['m'] text = some (position, ⟨names, b⟩) ∧
        firstNamed? ['m'] out = some (position, ⟨names', b⟩) ∧
        nameList names' = nameList names ++ symbols := by
  intro text out symbols
  have hspec : PlainSpecifier ['m'] := plainSpecifier_of_all (by decide)
  have hsymbols : ∀ symbol ∈ symbols, Code.IsName symbol :=
    List.forall_mem_cons.mpr ⟨Code.isName_of_isIdentifier (by decide),
      List.forall_mem_singleton.mpr (Code.isName_of_isIdentifier (by decide))⟩
  have hout : extend? ['m'] symbols text = some out := by
    rw [show text = _ from String.toList_ofList, show out = _ from String.toList_ofList]
    decide +kernel
  exact ⟨hspec, hsymbols, hout, (extend?_keeps_names hspec hsymbols text).1 out hout⟩

end CachedRoutes.Import
