import CachedRoutes.Code.Trivia
import CachedRoutes.Settings.Check
import CachedRoutes.Proofs.Text.Lines

/-!
# Names in code

A name consists of ASCII letters, digits, `_` and `$`. Blanks, quotes and brackets are none of these,
so a name never reaches over one of them.

* **Identifiers are names** (`isName_of_isIdentifier`).
* **A name stands on one side** (`IsName.infix_cases`): of two texts with another character between
  them, a name stands in the first or in the second.
* **A name at the start is one name** (`IsName.eq_of_append`).
-/

namespace CachedRoutes.Code

/-! ## Characters -/

/-- The code points of name characters. -/
lemma toNat_of_isNameChar {c : Char} (h : isNameChar c = true) :
    (65 ≤ c.toNat ∧ c.toNat ≤ 90) ∨ (97 ≤ c.toNat ∧ c.toNat ≤ 122) ∨
      (48 ≤ c.toNat ∧ c.toNat ≤ 57) ∨ c.toNat = 95 ∨ c.toNat = 36 := by
  delta isNameChar Char.isAlphanum Char.isAlpha Char.isUpper Char.isLower Char.isDigit at h
  simp only [Bool.or_eq_true, Bool.and_eq_true, decide_eq_true_eq, beq_iff_eq, ge_iff_le,
    UInt32.le_iff_toNat_le] at h
  rcases h with (((h | h) | h) | rfl) | rfl
  · exact .inl h
  · exact .inr (.inl h)
  · exact .inr (.inr (.inl h))
  · exact .inr (.inr (.inr (.inl rfl)))
  · exact .inr (.inr (.inr (.inr rfl)))

/-- No name character is blank. -/
lemma isNameChar_of_isBlank {c : Char} (h : Text.isBlank c = true) : isNameChar c = false := by
  by_contra hc
  rw [Bool.not_eq_false] at hc
  have hn := toNat_of_isNameChar hc
  simp only [Text.isBlank, Bool.or_eq_true, Bool.and_eq_true, decide_eq_true_eq, beq_iff_eq] at h
  omega

/-! ## Names -/

/-- A text of name characters, and at least one of them. -/
structure IsName (text : List Char) : Prop where
  ne_nil : text ≠ []
  chars : ∀ c ∈ text, isNameChar c = true

/-- An identifier in the settings is a name. -/
lemma isName_of_isIdentifier {text : String} (h : Settings.isIdentifier text = true) :
    IsName text.toList := by
  unfold Settings.isIdentifier at h
  split at h
  · simp at h
  · rename_i c rest heq
    simp only [Bool.and_eq_true, List.all_eq_true] at h
    rw [heq]
    refine ⟨by simp, ?_⟩
    intro d hd
    rcases List.mem_cons.mp hd with rfl | hd
    · simp only [isNameChar, Char.isAlphanum]
      simp only [Bool.or_eq_true] at h ⊢
      tauto
    · exact h.2 d hd

namespace IsName

variable {name : List Char}

/-- What is no name character does not stand in a name. -/
lemma not_mem (hname : IsName name) {c : Char} (hc : isNameChar c = false) : c ∉ name := by
  intro hmem
  rw [hname.chars c hmem] at hc
  exact Bool.noConfusion hc

/-- A name stands in one of two texts that something else divides. -/
lemma infix_cases (hname : IsName name) {a b : List Char} {c : Char}
    (hc : isNameChar c = false) (h : name <:+: a ++ c :: b) : name <:+: a ∨ name <:+: b :=
  Text.infix_or_infix_of_not_mem h (hname.not_mem hc)

/-- A name does not stand in a text without name characters. -/
lemma not_infix_of_forall (hname : IsName name) {text : List Char}
    (htext : ∀ c ∈ text, isNameChar c = false) : ¬ name <:+: text := by
  intro h
  obtain ⟨c, rest, rfl⟩ := List.exists_cons_of_ne_nil hname.ne_nil
  exact hname.not_mem (htext c (h.subset (by simp))) (by simp)

/-- In front of and behind a text, what has no name characters does not matter to a name. -/
lemma infix_of_infix_append (hname : IsName name) {left text right : List Char}
    (hleft : ∀ c ∈ left, isNameChar c = false) (hright : ∀ c ∈ right, isNameChar c = false)
    (h : name <:+: left ++ text ++ right) : name <:+: text := by
  have hstart : name <:+: left ++ text := by
    cases right with
    | nil => simpa using h
    | cons c right =>
      rcases hname.infix_cases (hright c (by simp)) h with h | h
      · exact h
      · exact absurd h (hname.not_infix_of_forall fun d hd => hright d (by simp [hd]))
  clear h
  induction left with
  | nil => simpa using hstart
  | cons c left ih =>
    rcases hname.infix_cases (a := []) (hleft c (by simp)) hstart with h | h
    · exact absurd h (hname.not_infix_of_forall (by simp))
    · exact ih (fun d hd => hleft d (by simp [hd])) h

/-- Two equal texts that start with a name and something else start with the same name. -/
lemma eq_of_append {other rest rest' : List Char} (hname : IsName name) (hother : IsName other)
    (hrest : ∀ c ∈ rest.head?, isNameChar c = false)
    (hrest' : ∀ c ∈ rest'.head?, isNameChar c = false) (h : name ++ rest = other ++ rest') :
    name = other ∧ rest = rest' := by
  have hnames : name = other := by
    rw [← takeWhile_run hname.chars hrest, h, takeWhile_run hother.chars hrest']
  subst hnames
  exact ⟨rfl, List.append_cancel_left h⟩

end IsName

end CachedRoutes.Code
