import CachedRoutes.Code.Chain
import CachedRoutes.Text.Blank
import CachedRoutes.Text.Word
import Mathlib.Data.List.Basic
import Mathlib.Data.List.TakeWhile

/-!
# What the scanners consume

The readers of comments, quoted text, brackets and calls return the rest of the text. Here is what
each of them has read by then.

* **Trivia.** `trimStart_of_skipTrivia`: what leads up to a dot. Every blank of the scanner is a blank
  of the patterns (`isBlank_of_isSpace`).
* **Calls.** `chain?_ends`: a chain ends with the `)` of its last call.
-/

namespace CachedRoutes.Code

/-! ## Trivia -/

/-- The scanner's blanks are blanks. -/
lemma isBlank_of_isSpace {c : Char} (h : isSpace c = true) : Text.isBlank c = true := by
  simp only [isSpace, Bool.or_eq_true, beq_iff_eq] at h
  rcases h with (((rfl | rfl) | rfl) | rfl) | rfl <;> decide

/-- If trivia lead up to a character other than a slash, the text starts with a blank of the
scanner, a slash or that character. -/
lemma head_of_skipTrivia {text rest : List Char} {c : Char} (h : skipTrivia text = c :: rest) :
    ∃ d tail, text = d :: tail ∧ (isSpace d = true ∨ d = '/' ∨ d = c) := by
  cases text with
  | nil => simp [skipTrivia] at h
  | cons d tail =>
    refine ⟨d, tail, rfl, ?_⟩
    by_cases hd : isSpace d = true
    · exact .inl hd
    · by_cases hslash : d = '/'
      · exact .inr (.inl hslash)
      · right; right
        rw [skipTrivia] at h
        · rw [if_neg hd] at h
          exact (List.cons.inj h).1
        · rintro line rfl; exact absurd rfl hslash
        · rintro line rfl; exact absurd rfl hslash

/-- Past the blanks of a text that trivia lead to a dot, there is a slash or the dot. -/
lemma trimStart_of_skipTrivia {text rest : List Char} (h : skipTrivia text = '.' :: rest) :
    ∃ d tail, Text.trimStart text = d :: tail ∧ (d = '/' ∨ d = '.') := by
  induction text with
  | nil => simp [skipTrivia] at h
  | cons c text ih =>
    obtain ⟨d, tail, heq, hd⟩ := head_of_skipTrivia h
    obtain ⟨rfl, rfl⟩ := List.cons.inj heq
    rcases hd with hd | hd
    · have hskip : skipTrivia (c :: text) = skipTrivia text := by
        rw [skipTrivia]
        · rw [if_pos hd]
        · rintro line rfl; exact absurd hd (by decide)
        · rintro line rfl; exact absurd hd (by decide)
      obtain ⟨e, tail, htrim, he⟩ := ih (hskip ▸ h)
      refine ⟨e, tail, ?_, he⟩
      rw [← htrim]
      simp [Text.trimStart, isBlank_of_isSpace hd]
    · refine ⟨c, text, ?_, hd⟩
      rcases hd with rfl | rfl <;> simp [Text.trimStart, Text.isBlank]

/-! ## What calls consume -/

/-- What is left behind a line comment ends the text. -/
lemma suffix_afterLine (text : List Char) : afterLine text <:+ text :=
  List.dropWhile_suffix _

/-- What is left behind a block comment ends the text. -/
lemma suffix_afterBlock? {text rest : List Char} (h : afterBlock? text = some rest) :
    rest <:+ text := by
  fun_induction afterBlock? text with
  | case1 => simp at h
  | case2 tail =>
    obtain rfl := Option.some.inj h
    exact ⟨['*', '/'], rfl⟩
  | case3 c text _ ih => exact (ih h).trans (List.suffix_cons c text)

/-- What is left behind a quoted text ends the text. -/
lemma suffix_afterQuoted? {quote : Char} {text rest : List Char}
    (h : afterQuoted? quote text = some rest) : rest <:+ text := by
  fun_induction afterQuoted? quote text with
  | case1 => simp at h
  | case2 => simp at h
  | case3 c text ih => exact (ih h).trans ⟨['\\', c], rfl⟩
  | case4 => simp at h
  | case5 =>
    obtain rfl := Option.some.inj h
    exact List.suffix_cons _ _
  | case6 c text _ _ _ _ ih => exact (ih h).trans (List.suffix_cons c text)

/-- What is left behind blanks and comments ends the text. -/
lemma suffix_skipTrivia (text : List Char) : skipTrivia text <:+ text := by
  fun_induction skipTrivia text with
  | case1 => exact List.suffix_refl _
  | case2 line ih => exact (ih.trans (suffix_afterLine line)).trans ⟨['/', '/'], rfl⟩
  | case3 block ih =>
    refine ih.trans ?_
    unfold afterBlock
    cases hb : afterBlock? block with
    | none => exact List.nil_suffix
    | some rest => exact (suffix_afterBlock? hb).trans ⟨['/', '*'], rfl⟩
  | case4 c rest _ _ _ ih => exact ih.trans (List.suffix_cons c rest)
  | case5 => exact List.suffix_refl _

/-- What follows a closed parenthesis follows a `)`. -/
lemma afterParen?_ends {depth : Nat} {text rest : List Char}
    (h : afterParen? depth text = some rest) : ')' :: rest <:+ text := by
  fun_induction afterParen? depth text with
  | case1 => simp at h
  | case2 depth text ih => exact (ih h).trans (List.suffix_cons _ _)
  | case3 text =>
    obtain rfl := Option.some.inj h
    exact List.suffix_refl _
  | case4 text depth ih => exact (ih h).trans (List.suffix_cons _ _)
  | case5 depth text ih =>
    exact ((ih h).trans (suffix_afterLine text)).trans ⟨['/', '/'], rfl⟩
  | case6 depth text after ha ih =>
    exact ((ih h).trans (suffix_afterBlock? ha)).trans ⟨['/', '*'], rfl⟩
  | case7 => simp at h
  | case8 depth c text _ _ _ _ _ after ha ih =>
    exact ((ih h).trans (suffix_afterQuoted? ha)).trans (List.suffix_cons _ _)
  | case9 => simp at h
  | case10 depth c text _ _ _ _ _ ih => exact (ih h).trans (List.suffix_cons _ _)

/-- Calls leave the text alone or end with the `)` of the last one. -/
lemma calls?_ends {text rest : List Char} {names : List String}
    (h : calls? text = some (names, rest)) :
    (names = [] ∧ rest = text) ∨ (∃ tail, skipTrivia text = '.' :: tail) ∧ ')' :: rest <:+ text := by
  fun_induction calls? text generalizing names rest
  case case2 text dotted hdot named name hname arguments hopen after hclose names' rest' hcalls ih =>
    right
    obtain ⟨rfl, rfl⟩ := Prod.mk.inj (Option.some.inj h)
    refine ⟨⟨dotted, hdot⟩, ?_⟩
    have hafter : ')' :: after <:+ text := by
      have h₁ : arguments <:+ named := by
        have h := suffix_skipTrivia (named.dropWhile isNameChar)
        rw [hopen] at h
        exact ((List.suffix_cons _ _).trans h).trans (List.dropWhile_suffix _)
      have h₂ : named <:+ text := by
        have h := suffix_skipTrivia text
        rw [hdot] at h
        exact ((suffix_skipTrivia dotted).trans (List.suffix_cons _ _)).trans h
      exact ((afterParen?_ends hclose).trans h₁).trans h₂
    rcases ih hcalls with ⟨-, rfl⟩ | ⟨-, hsuffix⟩
    · exact hafter
    · exact (hsuffix.trans (List.suffix_cons _ _)).trans hafter
  case case6 text _ =>
    left
    obtain ⟨rfl, rfl⟩ := Prod.mk.inj (Option.some.inj h)
    exact ⟨rfl, rfl⟩
  all_goals simp at h

/-- **A chain ends with the `)` of its last call**, and trivia lead to its first dot. -/
lemma chain?_ends {text rest : List Char} {names : List String}
    (h : chain? text = some (names, rest)) :
    ∃ calls tail, text = calls ++ ')' :: rest ∧ skipTrivia text = '.' :: tail := by
  unfold chain? at h
  split at h
  · simp at h
  · rename_i hne
    rcases calls?_ends h with ⟨rfl, -⟩ | ⟨⟨tail, htail⟩, calls, hcalls⟩
    · exact absurd h (hne _)
    · exact ⟨calls, tail, hcalls.symm, htail⟩

end CachedRoutes.Code
