import CachedRoutes.Code.Invocation
import CachedRoutes.Proofs.Code.Name

/-!
# Where a function is called

A call is a name, blanks and a parenthesis, and no word goes on in front of it
(`callsFunction_iff`). A text can be cut where no call reaches across.

* **Dividers** (`callsFunction_divided`): a call stands on one side of a character that is none of
  its own, such as a comma, a quote or a brace.
* **Margins** (`callsFunction_margin_left`, `callsFunction_margin_right`): neither characters that end
  words in front of a text nor a text without parentheses behind it make a difference.
-/

namespace CachedRoutes.Code

/-! ## Characters -/

/-- Blanks are no word characters. -/
lemma isWord_of_isBlank {c : Char} (h : Text.isBlank c = true) : Text.isWord c = false := by
  have hblank : c.toNat ∈ List.range' 9 5 ++ List.range' 0x2000 11
      ++ [0x20, 0x85, 0xA0, 0x1680, 0x2028, 0x2029, 0x202F, 0x205F, 0x3000] := by
    simp only [Text.isBlank, Bool.or_eq_true, Bool.and_eq_true, decide_eq_true_eq, beq_iff_eq] at h
    simp only [List.mem_append, List.mem_range'_1, List.mem_cons, List.not_mem_nil, or_false]
    omega
  have hall : (List.range' 9 5 ++ List.range' 0x2000 11
      ++ [0x20, 0x85, 0xA0, 0x1680, 0x2028, 0x2029, 0x202F, 0x205F, 0x3000]).all
        (fun n => !Text.isWord (Char.ofNat n)) = true := by decide +kernel
  have hword := List.all_eq_true.mp hall _ hblank
  rwa [Char.ofNat_toNat, Bool.not_eq_true'] at hword

/-- Words end at blanks. -/
lemma endsWord_of_isBlank {c : Char} (h : Text.isBlank c = true) : endsWord c = true := by
  have hdollar : c ≠ '$' := by
    rintro rfl
    exact absurd h (by decide)
  have hdot : c ≠ '.' := by
    rintro rfl
    exact absurd h (by decide)
  simp [endsWord, isWord_of_isBlank h, hdollar, hdot]

/-- Is this a character that no call has in it, and behind which a name may start? -/
def isDivider (c : Char) : Bool :=
  endsWord c && !isNameChar c && !Text.isBlank c && c != '('

/-! ## Calls -/

/-- A call starts with the name, blanks and a parenthesis. -/
lemma opensCall_iff {name text : List Char} :
    opensCall name text = true ↔ ∃ gap b, text = name ++ gap ++ '(' :: b ∧
      ∀ c ∈ gap, Text.isBlank c = true := by
  unfold opensCall
  rw [Bool.and_eq_true, List.isPrefixOf_iff_prefix, beq_iff_eq]
  constructor
  · rintro ⟨⟨rest, rfl⟩, hparen⟩
    rw [List.drop_left, List.head?_eq_some_iff] at hparen
    obtain ⟨b, hb⟩ := hparen
    obtain ⟨gap, hrest, hgap, -⟩ := Text.trimStart_gap rest
    refine ⟨gap, b, ?_, hgap⟩
    rw [List.append_assoc, ← hb, ← hrest]
  · rintro ⟨gap, b, rfl, hgap⟩
    rw [List.append_assoc, List.drop_left, Text.trimStart_append hgap (by simp [Text.isBlank])]
    exact ⟨List.prefix_append _ _, rfl⟩

/-- A call later in the text stands behind a character that ends a word. -/
lemma callsLater_iff {name text : List Char} :
    callsLater name text = true ↔ ∃ a c rest, text = a ++ c :: rest ∧ endsWord c = true ∧
      opensCall name rest = true := by
  induction text with
  | nil => simp [callsLater]
  | cons d text ih =>
    rw [callsLater, Bool.or_eq_true, Bool.and_eq_true, ih]
    constructor
    · rintro (⟨hd, hopens⟩ | ⟨a, c, rest, rfl, hc, hopens⟩)
      · exact ⟨[], d, text, rfl, hd, hopens⟩
      · exact ⟨d :: a, c, rest, rfl, hc, hopens⟩
    · rintro ⟨a, c, rest, heq, hc, hopens⟩
      cases a with
      | nil =>
        obtain ⟨rfl, rfl⟩ := List.cons.inj heq
        exact .inl ⟨hc, hopens⟩
      | cons e a =>
        obtain ⟨-, rfl⟩ := List.cons.inj heq
        exact .inr ⟨a, c, rest, rfl, hc, hopens⟩

/-- **What a call is:** the name, blanks and a parenthesis, and in front of it nothing or a character
that ends a word. -/
lemma callsFunction_iff {name text : List Char} :
    callsFunction name text = true ↔ ∃ a gap b, text = a ++ (name ++ gap ++ ['(']) ++ b ∧
      (∀ c ∈ gap, Text.isBlank c = true) ∧ ∀ c ∈ a.getLast?, endsWord c = true := by
  rw [callsFunction, Bool.or_eq_true, callsLater_iff, opensCall_iff]
  constructor
  · rintro (⟨gap, b, rfl, hgap⟩ | ⟨a, c, rest, rfl, hc, hopens⟩)
    · exact ⟨[], gap, b, by simp, hgap, by simp⟩
    · obtain ⟨gap, b, rfl, hgap⟩ := opensCall_iff.mp hopens
      refine ⟨a ++ [c], gap, b, by simp, hgap, ?_⟩
      intro d hd
      obtain rfl : c = d := by simpa using hd
      exact hc
  · rintro ⟨a, gap, b, rfl, hgap, hlast⟩
    rcases List.eq_nil_or_concat a with rfl | ⟨front, c, rfl⟩
    · exact .inl ⟨gap, b, by simp, hgap⟩
    · refine .inr ⟨front, c, name ++ gap ++ '(' :: b, by simp, hlast c (by simp), ?_⟩
      exact opensCall_iff.mpr ⟨gap, b, rfl, hgap⟩

/-- Without a parenthesis there is no call. -/
lemma callsFunction_eq_false_of_not_mem {name text : List Char} (h : '(' ∉ text) :
    callsFunction name text = false := by
  rw [Bool.eq_false_iff]
  intro hcalls
  obtain ⟨a, gap, b, rfl, -, -⟩ := callsFunction_iff.mp hcalls
  simp at h

/-! ## Cutting a text -/

/-- A text without parentheses makes no difference behind a text. -/
lemma callsFunction_margin_right {name right : List Char} (hright : '(' ∉ right) (text : List Char) :
    callsFunction name (text ++ right) = callsFunction name text := by
  rw [Bool.eq_iff_iff]
  constructor
  · intro hcalls
    obtain ⟨x, gap, y, heq, hgap, hlast⟩ := callsFunction_iff.mp hcalls
    have hcut : text ++ right = (x ++ (name ++ gap)) ++ '(' :: y := by simpa using heq
    rcases List.append_eq_append_iff.mp hcut with ⟨as, -, has⟩ | ⟨bs, rfl, hbs⟩
    · rw [has] at hright
      simp at hright
    · cases bs with
      | nil =>
        rw [List.nil_append] at hbs
        rw [← hbs] at hright
        simp at hright
      | cons d bs =>
        obtain ⟨rfl, -⟩ := List.cons.inj hbs
        exact callsFunction_iff.mpr ⟨x, gap, bs, by simp, hgap, hlast⟩
  · intro hcalls
    obtain ⟨x, gap, y, rfl, hgap, hlast⟩ := callsFunction_iff.mp hcalls
    exact callsFunction_iff.mpr ⟨x, gap, y ++ right, by simp, hgap, hlast⟩

section Cuts

variable {name : List Char} (hname : IsName name)
include hname

/-- A divider does not stand in a call. -/
lemma not_mem_call {c : Char} {gap : List Char} (hc : isDivider c = true)
    (hgap : ∀ d ∈ gap, Text.isBlank d = true) : c ∉ name ++ gap ++ ['('] := by
  simp only [isDivider, Bool.and_eq_true, Bool.not_eq_true', bne_iff_ne] at hc
  obtain ⟨⟨⟨-, hchar⟩, hblank⟩, hparen⟩ := hc
  intro hmem
  rcases List.mem_append.mp hmem with hmem | hmem
  · rcases List.mem_append.mp hmem with hmem | hmem
    · exact hname.not_mem hchar hmem
    · rw [hgap c hmem] at hblank
      exact Bool.noConfusion hblank
  · exact hparen (List.mem_singleton.mp hmem)

/-- **A call stands on one side of a divider.** -/
lemma callsFunction_divided {c : Char} (hc : isDivider c = true) (a b : List Char) :
    callsFunction name (a ++ c :: b) = (callsFunction name a || callsFunction name b) := by
  have hends : endsWord c = true := by
    simp only [isDivider, Bool.and_eq_true] at hc
    exact hc.1.1.1
  rw [Bool.eq_iff_iff, Bool.or_eq_true]
  constructor
  · intro hcalls
    obtain ⟨x, gap, y, heq, hgap, hlast⟩ := callsFunction_iff.mp hcalls
    have hnot := not_mem_call hname hc hgap
    rw [List.append_assoc] at heq
    rcases List.append_eq_append_iff.mp heq.symm with ⟨as, rfl, has⟩ | ⟨bs, rfl, hbs⟩
    · -- the call starts in front of the divider, so it ends there too
      obtain ⟨tail, rfl⟩ := Text.prefix_of_not_mem ⟨y, has⟩ hnot
      exact .inl (callsFunction_iff.mpr ⟨x, gap, tail, by simp, hgap, hlast⟩)
    · cases bs with
      | nil =>
        have hmem : c ∈ name ++ gap ++ ['('] := by
          obtain ⟨d, rest, hd⟩ := List.exists_cons_of_ne_nil
            (show name ++ gap ++ ['('] ≠ [] by simp)
          rw [hd] at hbs ⊢
          rw [(List.cons.inj hbs).1]
          exact List.mem_cons_self
        exact absurd hmem hnot
      | cons d bs =>
        obtain ⟨-, rfl⟩ := List.cons.inj hbs
        refine .inr (callsFunction_iff.mpr ⟨bs, gap, y, by simp, hgap, ?_⟩)
        intro e he
        refine hlast e ?_
        rw [List.getLast?_append, List.getLast?_cons, he]
        rfl
  · rintro (hcalls | hcalls)
    · obtain ⟨x, gap, y, rfl, hgap, hlast⟩ := callsFunction_iff.mp hcalls
      exact callsFunction_iff.mpr ⟨x, gap, y ++ c :: b, by simp, hgap, hlast⟩
    · obtain ⟨x, gap, y, rfl, hgap, hlast⟩ := callsFunction_iff.mp hcalls
      refine callsFunction_iff.mpr ⟨a ++ c :: x, gap, y, by simp, hgap, ?_⟩
      intro e he
      rcases List.eq_nil_or_concat x with rfl | ⟨front, d, rfl⟩
      · obtain rfl : c = e := by simpa using he
        exact hends
      · refine hlast e ?_
        simpa [List.getLast?_append, List.getLast?_cons] using he

/-- Characters that end words make no difference in front of a text. -/
lemma callsFunction_margin_left {left : List Char}
    (hleft : ∀ c ∈ left, endsWord c = true ∧ isNameChar c = false) (text : List Char) :
    callsFunction name (left ++ text) = callsFunction name text := by
  induction left with
  | nil => rfl
  | cons c left ih =>
    obtain ⟨hends, hchar⟩ := hleft c (by simp)
    rw [← ih fun d hd => hleft d (by simp [hd]), Bool.eq_iff_iff]
    constructor
    · intro hcalls
      obtain ⟨x, gap, y, heq, hgap, hlast⟩ := callsFunction_iff.mp hcalls
      cases x with
      | nil =>
        obtain ⟨d, rest, hd⟩ := List.exists_cons_of_ne_nil hname.ne_nil
        rw [hd] at heq
        obtain ⟨rfl, -⟩ := List.cons.inj heq
        exact absurd (hd ▸ List.mem_cons_self) (hname.not_mem hchar)
      | cons d x =>
        obtain ⟨-, heq⟩ := List.cons.inj heq
        refine callsFunction_iff.mpr ⟨x, gap, y, heq, hgap, ?_⟩
        intro e he
        refine hlast e ?_
        rw [List.getLast?_cons, he]
        rfl
    · intro hcalls
      obtain ⟨x, gap, y, heq, hgap, hlast⟩ := callsFunction_iff.mp hcalls
      refine callsFunction_iff.mpr ⟨c :: x, gap, y, by rw [List.cons_append, heq]; simp, hgap, ?_⟩
      intro e he
      rcases List.eq_nil_or_concat x with rfl | ⟨front, d, rfl⟩
      · obtain rfl : c = e := by simpa using he
        exact hends
      · refine hlast e ?_
        simpa [List.getLast?_cons] using he

/-- Blanks around a text make no difference. -/
lemma callsFunction_blanks {left right : List Char} (hleft : ∀ c ∈ left, Text.isBlank c = true)
    (hright : ∀ c ∈ right, Text.isBlank c = true) (text : List Char) :
    callsFunction name (left ++ text ++ right) = callsFunction name text := by
  have hparen : '(' ∉ right := by
    intro hmem
    exact absurd (hright _ hmem) (by decide)
  rw [callsFunction_margin_right hparen]
  exact callsFunction_margin_left hname
    (fun c hc => ⟨endsWord_of_isBlank (hleft c hc), isNameChar_of_isBlank (hleft c hc)⟩) text

end Cuts

end CachedRoutes.Code
