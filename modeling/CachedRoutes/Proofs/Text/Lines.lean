import CachedRoutes.Text.Basic
import CachedRoutes.Text.Blank
import CachedRoutes.Proofs.Lists
import Mathlib.Data.List.TakeWhile

/-!
# How texts fall apart at words, blanks and lines

The patterns of this library read a text from the start of a line on: a word, blanks, a word again.
What such a pattern accepts is settled here once.

* **Words and blanks.** `after?_eq_some_iff` and `trimStart_gap`: a word is cut off exactly where it
  stands, and blanks are cut off up to the first character that is none.
* **Lines.** `lineStarts_append`: the lines of `a ++ b` are those of `a`, each continued by `b`, and
  then those that a line feed of `b` starts. An edit inside a text is followed line by line with it.
* **Fields.** `fields_append_sep` and `fields_intercalate`: a text is cut at each separator.
* **Cuts.** `closed_cases`: how two pieces of a text lie that are closed by the same character.
* **Substrings.** `infix_or_infix_of_not_mem`: a needle that does not contain the character between
  two texts stands in one of them.
-/

namespace CachedRoutes.Text

/-! ## Words and blanks -/

/-- A word is cut off exactly where it stands. -/
lemma after?_eq_some_iff {word text rest : List Char} :
    after? word text = some rest ↔ text = word ++ rest := by
  unfold after?
  constructor
  · intro h
    split at h
    · rename_i hp
      obtain ⟨t, rfl⟩ := List.isPrefixOf_iff_prefix.mp hp
      simpa using h
    · simp at h
  · rintro rfl
    simp

/-- Behind a word comes the rest. -/
@[simp] lemma after?_append (word rest : List Char) : after? word (word ++ rest) = some rest :=
  after?_eq_some_iff.mpr rfl

/-- Blanks in front of a text that starts with something else are cut off. -/
lemma trimStart_append {gap text : List Char} (hgap : ∀ c ∈ gap, isBlank c = true)
    (htext : ∀ c ∈ text.head?, isBlank c = false) : trimStart (gap ++ text) = text :=
  dropWhile_run hgap htext

/-- A text is its leading blanks and the rest, which starts with no blank. -/
lemma trimStart_gap (text : List Char) :
    ∃ gap, text = gap ++ trimStart text ∧ (∀ c ∈ gap, isBlank c = true) ∧
      ∀ c ∈ (trimStart text).head?, isBlank c = false := by
  refine ⟨text.takeWhile isBlank, (List.takeWhile_append_dropWhile).symm, ?_, ?_⟩
  · intro c hc
    exact List.mem_takeWhile_imp hc
  · intro c hc
    have := List.head?_dropWhile_not isBlank text
    rw [trimStart] at hc
    rw [hc] at this
    simpa using this

/-- Trimming takes the blanks around a text off. -/
lemma trim_append {left text right : List Char} (hleft : ∀ c ∈ left, isBlank c = true)
    (hright : ∀ c ∈ right, isBlank c = true) (hne : text ≠ [])
    (hhead : ∀ c ∈ text.head?, isBlank c = false) (hlast : ∀ c ∈ text.getLast?, isBlank c = false) :
    trim (left ++ text ++ right) = text := by
  have hstart : trimStart (left ++ (text ++ right)) = text ++ right := by
    refine trimStart_append hleft ?_
    rw [List.head?_append_of_ne_nil _ hne]
    exact hhead
  have hend : (right.reverse ++ text.reverse).dropWhile isBlank = text.reverse := by
    refine dropWhile_run (fun c hc => hright c (List.mem_reverse.mp hc)) ?_
    rw [List.head?_reverse]
    exact hlast
  rw [trim, List.append_assoc, hstart, List.reverse_append, hend, List.reverse_reverse]

/-- Blanks around a text make no difference to trimming. -/
lemma trim_blanks {left right : List Char} (hleft : ∀ c ∈ left, isBlank c = true)
    (hright : ∀ c ∈ right, isBlank c = true) (text : List Char) :
    trim (left ++ text ++ right) = trim text := by
  have hblank : ∀ c ∈ right.reverse, isBlank c = true := fun c hc => hright c (List.mem_reverse.mp hc)
  have hstart : trimStart (left ++ text ++ right) = trimStart (text ++ right) := by
    rw [trimStart, trimStart, List.append_assoc, List.dropWhile_append_of_pos hleft]
  rw [trim, trim, hstart, trimStart, trimStart, List.dropWhile_append]
  split
  · rename_i hempty
    rw [List.isEmpty_iff.mp hempty, List.dropWhile_eq_nil_iff.mpr hright]
  · rw [List.reverse_append, List.dropWhile_append_of_pos hblank]

/-- If something stands behind the leading blanks, a continuation does not change that. -/
lemma trimStart_append_of_cons {text rest tail : List Char} {c : Char}
    (h : trimStart text = c :: rest) : trimStart (text ++ tail) = c :: (rest ++ tail) := by
  obtain ⟨gap, hgap, hblank, hhead⟩ := trimStart_gap text
  rw [hgap, h, List.append_assoc, List.cons_append]
  exact trimStart_append hblank (by simpa [h] using hhead)

/-- Spaces and tabs are blanks. -/
lemma isBlank_of_isIndent {c : Char} (h : isIndent c = true) : isBlank c = true := by
  simp only [isIndent, Bool.or_eq_true, beq_iff_eq] at h
  rcases h with rfl | rfl <;> decide

/-! ## Lines -/

/-- The lines of two texts: those that start in the first go on in the second. -/
lemma afterLineFeeds_append (a b : List Char) :
    afterLineFeeds (a ++ b) = (afterLineFeeds a).map (· ++ b) ++ afterLineFeeds b := by
  induction a with
  | nil => rfl
  | cons c a ih =>
    by_cases hc : c = '\n'
    · simp [afterLineFeeds, hc, ih]
    · simp [afterLineFeeds, hc, ih]

/-- Without a line feed there is no further line. -/
lemma afterLineFeeds_eq_nil {text : List Char} (h : '\n' ∉ text) : afterLineFeeds text = [] := by
  induction text with
  | nil => rfl
  | cons c rest ih =>
    rw [List.mem_cons, not_or] at h
    rw [afterLineFeeds, if_neg (Ne.symm h.1), ih h.2]

/-- The lines of a text in two parts: those of the first part, each continued by the second, and
those that a line feed of the second part starts. -/
lemma lineStarts_append (a b : List Char) :
    lineStarts (a ++ b) = (lineStarts a).map (· ++ b) ++ afterLineFeeds b := by
  simp [lineStarts, afterLineFeeds_append]

/-- What follows a line feed. -/
lemma mem_afterLineFeeds_iff {line text : List Char} :
    line ∈ afterLineFeeds text ↔ ∃ before, text = before ++ '\n' :: line := by
  constructor
  · intro h
    induction text with
    | nil => simp [afterLineFeeds] at h
    | cons c rest ih =>
      rw [afterLineFeeds] at h
      split at h
      · rename_i hc
        subst hc
        rcases List.mem_cons.mp h with rfl | h
        · exact ⟨[], rfl⟩
        · obtain ⟨before, rfl⟩ := ih h
          exact ⟨'\n' :: before, rfl⟩
      · obtain ⟨before, rfl⟩ := ih h
        exact ⟨c :: before, rfl⟩
  · rintro ⟨before, rfl⟩
    simp [afterLineFeeds_append, afterLineFeeds]

/-- A line starts at the start of the text or after a line feed. -/
lemma mem_lineStarts_iff {line text : List Char} :
    line ∈ lineStarts text ↔ line = text ∨ ∃ before, text = before ++ '\n' :: line := by
  rw [lineStarts, List.mem_cons, mem_afterLineFeeds_iff]

/-- In front of a line there is nothing, or a line feed ends what is there. -/
lemma exists_front_of_mem_lineStarts {line text : List Char} (h : line ∈ lineStarts text) :
    ∃ front, text = front ++ line ∧ (front = [] ∨ ∃ before, front = before ++ ['\n']) := by
  rcases mem_lineStarts_iff.mp h with rfl | ⟨before, rfl⟩
  · exact ⟨[], rfl, .inl rfl⟩
  · exact ⟨before ++ ['\n'], by simp, .inr ⟨before, rfl⟩⟩

/-- Behind nothing or a line feed there is the start of a line. -/
lemma mem_lineStarts_of_front {front line : List Char}
    (h : front = [] ∨ ∃ before, front = before ++ ['\n']) : line ∈ lineStarts (front ++ line) := by
  rw [mem_lineStarts_iff]
  rcases h with rfl | ⟨before, rfl⟩
  · exact .inl rfl
  · exact .inr ⟨before, by simp⟩

/-! ## Fields -/

/-- A text without separators is one field. -/
lemma fields_of_not_mem {sep : Char} {text : List Char} (h : sep ∉ text) :
    fields sep text = [text] := by
  induction text with
  | nil => rfl
  | cons c rest ih =>
    rw [List.mem_cons, not_or] at h
    rw [fields, if_neg (Ne.symm h.1), ih h.2]

/-- There is always a field. -/
lemma fields_ne_nil (sep : Char) (text : List Char) : fields sep text ≠ [] := by
  cases text with
  | nil => simp [fields]
  | cons c rest =>
    rw [fields]
    split
    · simp
    · split <;> simp

/-- A separator ends a field. -/
lemma fields_append_sep (sep : Char) (a b : List Char) :
    fields sep (a ++ sep :: b) = fields sep a ++ fields sep b := by
  induction a with
  | nil => simp [fields]
  | cons c a ih =>
    rw [List.cons_append, fields, fields, ih]
    by_cases hc : c = sep
    · rw [if_pos hc, if_pos hc, List.cons_append]
    · rw [if_neg hc, if_neg hc]
      obtain ⟨first, others, heq⟩ := List.exists_cons_of_ne_nil (fields_ne_nil sep a)
      simp [heq]

/-- A first field without separators, and the other fields. -/
lemma fields_append {sep : Char} {a b : List Char} (h : sep ∉ a) :
    fields sep (a ++ sep :: b) = a :: fields sep b := by
  rw [fields_append_sep, fields_of_not_mem h]
  rfl

/-- No field has a separator in it. -/
lemma not_mem_of_mem_fields {sep : Char} {text field : List Char} (h : field ∈ fields sep text) :
    sep ∉ field := by
  induction text generalizing field with
  | nil => simp_all [fields]
  | cons c rest ih =>
    obtain ⟨first, others, hfirst⟩ := List.exists_cons_of_ne_nil (fields_ne_nil sep rest)
    by_cases hc : c = sep
    · rw [fields, if_pos hc] at h
      rcases List.mem_cons.mp h with rfl | hmem
      · exact List.not_mem_nil
      · exact ih hmem
    · rw [fields, if_neg hc, hfirst] at h
      rcases List.mem_cons.mp h with rfl | hmem
      · have hrest : sep ∉ first := ih (by rw [hfirst]; exact List.mem_cons_self)
        simp [Ne.symm hc, hrest]
      · exact ih (by rw [hfirst]; exact List.mem_cons_of_mem _ hmem)

/-- The fields of a text stand in it. -/
lemma infix_of_mem_fields {sep : Char} {text field : List Char}
    (h : field ∈ fields sep text) : field <:+: text := by
  -- by the length of the text, one field after the other
  induction hn : text.length using Nat.strong_induction_on generalizing text with
  | _ n ih =>
    by_cases hmem : sep ∈ text
    · obtain ⟨a, b, rfl, ha⟩ := List.eq_append_cons_of_mem hmem
      rw [fields_append ha] at h
      rcases List.mem_cons.mp h with rfl | h
      · exact (List.prefix_append field _).isInfix
      · exact (ih b.length (by simp [← hn]; omega) h rfl).trans ⟨a ++ [sep], [], by simp⟩
    · rw [fields_of_not_mem hmem] at h
      obtain rfl := List.mem_singleton.mp h
      exact List.infix_refl _

/-- Parts that were put together come apart at all separators, those in the parts among them. -/
lemma fields_intercalate_flatMap {sep : Char} {parts : List (List Char)} (hne : parts ≠ []) :
    fields sep ([sep].intercalate parts) = parts.flatMap (fields sep) := by
  induction parts with
  | nil => exact absurd rfl hne
  | cons part parts ih =>
    cases parts with
    | nil => simp
    | cons next rest =>
      rw [List.intercalate_cons_cons, List.append_assoc, List.singleton_append, fields_append_sep,
        ih (List.cons_ne_nil _ _)]
      exact List.flatMap_cons.symm

/-- Parts that were put together come apart again. -/
lemma fields_intercalate {sep : Char} {parts : List (List Char)} (hne : parts ≠ [])
    (h : ∀ part ∈ parts, sep ∉ part) : fields sep ([sep].intercalate parts) = parts := by
  have hparts : ∀ part ∈ parts, fields sep part = [part] := fun part hpart =>
    fields_of_not_mem (h part hpart)
  rw [fields_intercalate_flatMap hne, List.flatMap_congr hparts, List.flatMap_singleton']

/-- A text that came apart is put together again. -/
lemma intercalate_fields (sep : Char) (text : List Char) :
    [sep].intercalate (fields sep text) = text := by
  induction text with
  | nil => rfl
  | cons c rest ih =>
    obtain ⟨first, others, hfields⟩ := List.exists_cons_of_ne_nil (fields_ne_nil sep rest)
    rw [hfields] at ih
    rw [fields, hfields]
    split
    · rename_i hc
      rw [List.intercalate_cons_cons, ih, hc]
      rfl
    · dsimp only
      cases others with
      | nil =>
        rw [List.intercalate_singleton] at ih ⊢
        rw [ih]
      | cons next others =>
        rw [List.intercalate_cons_cons] at ih ⊢
        rw [← ih]
        rfl

/-! ## Cuts -/

/-- A character that does not stand in the end of a text stands in front of that end. -/
lemma exists_of_append_eq {a b p y : List Char} {c : Char} (hy : c ∉ y)
    (h : p ++ y = a ++ c :: b) : ∃ more, p = a ++ c :: more ∧ b = more ++ y := by
  rcases List.append_eq_append_iff.mp h with ⟨s, rfl, hs⟩ | ⟨s, rfl, hs⟩
  · rw [hs] at hy
    simp at hy
  · cases s with
    | nil =>
      rw [List.nil_append] at hs
      rw [← hs] at hy
      simp at hy
    | cons d s =>
      obtain ⟨rfl, rfl⟩ := List.cons.inj hs
      exact ⟨s, rfl, rfl⟩

/-- Two pieces of a text, each of them closed by the same character that does not stand in it, are
closed at one place, or one of them comes behind the other. -/
lemma closed_cases {a x b p y q : List Char} {c : Char} (hx : c ∉ x) (hy : c ∉ y)
    (h : a ++ x ++ c :: b = p ++ y ++ c :: q) :
    (a ++ x = p ++ y ∧ b = q) ∨ (∃ more, p = a ++ x ++ c :: more ∧ b = more ++ y ++ c :: q) ∨
      ∃ more, a = p ++ y ++ c :: more ∧ q = more ++ x ++ c :: b := by
  rcases List.append_eq_append_iff.mp h with ⟨s, hs, hb⟩ | ⟨s, hs, hq⟩
  · cases s with
    | nil => exact .inl ⟨by simpa using hs.symm, (List.cons.inj hb).2⟩
    | cons d s =>
      obtain ⟨rfl, rfl⟩ := List.cons.inj hb
      obtain ⟨more, hp, rfl⟩ := exists_of_append_eq hy hs
      exact .inr (.inl ⟨more, hp, rfl⟩)
  · cases s with
    | nil => exact .inl ⟨by simpa using hs, (List.cons.inj hq).2.symm⟩
    | cons d s =>
      obtain ⟨rfl, rfl⟩ := List.cons.inj hq
      obtain ⟨more, ha, rfl⟩ := exists_of_append_eq hx hs
      exact .inr (.inr ⟨more, ha, rfl⟩)

/-! ## Substrings -/

/-- A beginning of `a ++ c :: b` without the character `c` is a beginning of `a`. -/
lemma prefix_of_not_mem {needle a b : List Char} {c : Char} (h : needle <+: a ++ c :: b)
    (hc : c ∉ needle) : needle <+: a := by
  obtain ⟨t, ht⟩ := h
  rcases List.append_eq_append_iff.mp ht with ⟨as, rfl, -⟩ | ⟨bs, rfl, hbs⟩
  · exact List.prefix_append needle as
  · cases bs with
    | nil => simp
    | cons d bs =>
      obtain ⟨rfl, -⟩ := List.cons.inj hbs
      simp at hc

/-- A needle that does not contain the character between two texts stands in one of them. -/
lemma infix_or_infix_of_not_mem {needle a b : List Char} {c : Char}
    (h : needle <:+: a ++ c :: b) (hc : c ∉ needle) : needle <:+: a ∨ needle <:+: b := by
  obtain ⟨s, t, ht⟩ := h
  rw [List.append_assoc] at ht
  rcases List.append_eq_append_iff.mp ht with ⟨as, rfl, has⟩ | ⟨bs, rfl, hbs⟩
  · -- the needle starts in front of `c`, so it ends there too
    left
    have hp : needle <+: as := prefix_of_not_mem ⟨t, has⟩ hc
    exact hp.isInfix.trans (List.suffix_append s as).isInfix
  · cases bs with
    | nil =>
      cases needle with
      | nil => exact .inl (List.nil_infix)
      | cons d needle =>
        obtain ⟨rfl, -⟩ := List.cons.inj hbs
        simp at hc
    | cons d bs =>
      obtain ⟨-, rfl⟩ := List.cons.inj hbs
      exact .inr ⟨bs, t, by simp⟩

end CachedRoutes.Text
