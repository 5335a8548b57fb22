import CachedRoutes.Code.Span
import CachedRoutes.Proofs.Code.Trivia

/-!
# Where comments and quoted texts begin and end

A text is read from left to right, and each comment or quoted text takes a span of it. Here is what
stands at the two ends of a span, and when a piece of the text can be read alone.

* **Ends.** `mem_spans`: a span begins with a slash or a quote. It ends at the end of the text, in front
  of a line feed, or with a slash or a quote (`afterInert?_stops`).
* **Seams.** `spans_append`: where no span goes across a seam, the text behind the seam has the spans
  that it has alone.
* **Quiet stretches.** `covers_eq_of_quiet`: between two positions without slashes, quotes and line
  feeds no span begins or ends.
* **Names in code.** `InCodeAt`, and `standsInCode_iff`.
-/

namespace CachedRoutes.Code

/-! ## Ends -/

/-- A slash or a quote: what a comment or a quoted text can begin with, and what closes it. -/
def isInertMark (c : Char) : Bool :=
  c == '/' || isQuote c

/-- What is left behind a comment or quoted text ends the text. -/
lemma suffix_afterInert? {c : Char} {rest after : List Char} (h : afterInert? c rest = some after) :
    after <:+ rest := by
  unfold afterInert? at h
  split at h
  · obtain rfl := Option.some.inj h
    exact (suffix_afterLine _).trans (List.suffix_cons _ _)
  · rename_i block
    obtain rfl := Option.some.inj h
    refine List.IsSuffix.trans ?_ (List.suffix_cons _ _)
    unfold afterBlock
    cases hblock : afterBlock? block with
    | none => exact List.nil_suffix
    | some rest => exact suffix_afterBlock? hblock
  · split at h
    · obtain rfl := Option.some.inj h
      cases hquoted : afterQuoted? c rest with
      | none => exact suffix_afterLine rest
      | some after => exact suffix_afterQuoted? hquoted
    · simp at h

/-- A slash or a quote is no blank. -/
lemma isBlank_of_isInertMark {c : Char} (h : isInertMark c = true) : Text.isBlank c = false := by
  simp only [isInertMark, isQuote, Bool.or_eq_true, beq_iff_eq] at h
  rcases h with rfl | (rfl | rfl) | rfl <;> decide

/-- No blank is a mark. -/
lemma isInertMark_of_isBlank {c : Char} (h : Text.isBlank c = true) : isInertMark c = false := by
  rw [Bool.eq_false_iff]
  intro hmark
  rw [isBlank_of_isInertMark hmark] at h
  exact Bool.noConfusion h

/-- A comment or quoted text starts with a slash or a quote. -/
lemma afterInert?_starts {c : Char} {rest after : List Char} (h : afterInert? c rest = some after) :
    isInertMark c = true := by
  unfold afterInert? at h
  split at h
  · rfl
  · rfl
  · split at h
    · rename_i hquote
      simp [isInertMark, hquote]
    · simp at h

/-- Behind a line comment there is a line feed or nothing. -/
lemma afterLine_cases (text : List Char) :
    afterLine text = [] ∨ ∃ rest, afterLine text = '\n' :: rest := by
  unfold afterLine
  cases hline : text.dropWhile (· != '\n') with
  | nil => exact .inl rfl
  | cons c rest =>
    have hhead := List.head?_dropWhile_not (· != '\n') text
    rw [hline] at hhead
    obtain rfl : c = '\n' := by simpa using hhead
    exact .inr ⟨rest, rfl⟩

/-- A block comment ends with a slash. -/
lemma afterBlock?_ends {text rest : List Char} (h : afterBlock? text = some rest) :
    '/' :: rest <:+ text := by
  fun_induction afterBlock? text with
  | case1 => simp at h
  | case2 tail =>
    obtain rfl := Option.some.inj h
    exact List.suffix_cons _ _
  | case3 c text _ ih => exact (ih h).trans (List.suffix_cons c text)

/-- A quoted text ends with its quote. -/
lemma afterQuoted?_ends {quote : Char} {text rest : List Char}
    (h : afterQuoted? quote text = some rest) : quote :: rest <:+ text := by
  fun_induction afterQuoted? quote text with
  | case1 => simp at h
  | case2 => simp at h
  | case3 c text ih => exact (ih h).trans ⟨['\\', c], rfl⟩
  | case4 => simp at h
  | case5 =>
    obtain rfl := Option.some.inj h
    exact List.suffix_refl _
  | case6 c text _ _ _ _ ih => exact (ih h).trans (List.suffix_cons c text)

/-- What stands in front of a rest that is left behind its closing mark. -/
private lemma inside_of_suffix {inside after : List Char} {d : Char}
    (h : d :: after <:+ inside ++ after) (hd : isInertMark d = true) :
    ∃ front d, inside = front ++ [d] ∧ isInertMark d = true := by
  obtain ⟨front, hfront⟩ := h
  refine ⟨front, d, (List.append_left_inj after).mp ?_, hd⟩
  rw [← hfront]
  simp

/-- **Where a comment or a quoted text ends:** with the text, in front of a line feed, or with a
closing mark. -/
lemma afterInert?_stops {c : Char} {inside after : List Char}
    (h : afterInert? c (inside ++ after) = some after) :
    after = [] ∨ (∃ rest, after = '\n' :: rest) ∨
      ∃ front d, inside = front ++ [d] ∧ isInertMark d = true := by
  generalize hrest : inside ++ after = rest at h
  unfold afterInert? at h
  split at h
  · rename_i line
    rw [← Option.some.inj h]
    rcases afterLine_cases line with hnil | hfeed
    · exact .inl hnil
    · exact .inr (.inl hfeed)
  · rename_i block
    have hafter := Option.some.inj h
    unfold afterBlock at hafter
    cases hclosed : afterBlock? block with
    | none =>
      rw [hclosed] at hafter
      exact .inl hafter.symm
    | some behind =>
      rw [hclosed] at hafter
      obtain rfl : behind = after := hafter
      have hsuffix := (afterBlock?_ends hclosed).trans (List.suffix_cons '*' block)
      rw [← hrest] at hsuffix
      exact .inr (.inr (inside_of_suffix hsuffix rfl))
  · split at h
    · rename_i hquote
      have hafter := Option.some.inj h
      cases hclosed : afterQuoted? c rest with
      | none =>
        rw [hclosed] at hafter
        rw [← hafter]
        rcases afterLine_cases rest with hnil | hfeed
        · exact .inl hnil
        · exact .inr (.inl hfeed)
      | some behind =>
        rw [hclosed] at hafter
        obtain rfl : behind = after := hafter
        have hsuffix := afterQuoted?_ends hclosed
        rw [← hrest] at hsuffix
        exact .inr (.inr (inside_of_suffix hsuffix (by simp [isInertMark, hquote])))
    · simp at h

/-! ## The spans of a text -/

/-- The span in a text that starts `k` characters earlier. -/
def Span.shift (k : Nat) (span : Span) : Span :=
  ⟨span.start + k, span.stop + k⟩

/-- A moved span covers the moved positions. -/
lemma Span.covers_shift (k : Nat) (span : Span) (position : Nat) :
    (span.shift k).covers (position + k) = span.covers position := by
  simp [Span.shift, Span.covers]

/-- The first span of a text, and those behind it. -/
lemma spansFrom_cons_some {start : Nat} {c : Char} {rest after : List Char}
    (h : afterInert? c rest = some after) :
    spansFrom start (c :: rest)
      = ⟨start, start + (rest.length + 1 - after.length)⟩
        :: spansFrom (start + (rest.length + 1 - after.length)) after := by
  rw [spansFrom]
  split
  · rename_i found hfound
    rw [h] at hfound
    rw [Option.some.inj hfound]
  · rename_i hnone
    rw [h] at hnone
    simp at hnone

/-- A character that opens nothing starts no span. -/
lemma spansFrom_cons_none {start : Nat} {c : Char} {rest : List Char}
    (h : afterInert? c rest = none) :
    spansFrom start (c :: rest) = spansFrom (start + 1) rest := by
  rw [spansFrom]
  split
  · rename_i found hfound
    rw [h] at hfound
    simp at hfound
  · rfl

/-- The position of the first character is all that the spans take from what is in front. -/
lemma spansFrom_add (start k : Nat) (text : List Char) :
    spansFrom (start + k) text = (spansFrom start text).map (Span.shift k) := by
  fun_induction spansFrom start text with
  | case1 start => simp [spansFrom]
  | case2 start c rest after hafter stop ih =>
    have hstop : start + k + (rest.length + 1 - after.length) = stop + k :=
      Nat.add_right_comm start k _
    rw [spansFrom_cons_some hafter, List.map_cons, hstop, ih]
    rfl
  | case3 start c rest hnone ih =>
    rw [spansFrom_cons_none hnone, ← ih]
    congr 1
    omega

/-- Where no span goes across the seam of two texts, the second has its own spans. -/
lemma spansFrom_append {start : Nat} {left right : List Char}
    (h : ∀ span ∈ spansFrom start (left ++ right),
      span.stop ≤ start + left.length ∨ start + left.length ≤ span.start) :
    ∃ front, (∀ span ∈ front, span.stop ≤ start + left.length) ∧
      spansFrom start (left ++ right) = front ++ spansFrom (start + left.length) right := by
  -- the induction is on the length, since a span takes many characters at once
  induction hn : left.length using Nat.strong_induction_on generalizing start left with
  | _ n ih =>
    subst hn
    cases left with
    | nil => exact ⟨[], by simp, rfl⟩
    | cons c left =>
      rw [List.cons_append] at h ⊢
      cases hinert : afterInert? c (left ++ right) with
      | none =>
        have hseam : start + 1 + left.length = start + (c :: left).length := by
          rw [List.length_cons]
          omega
        rw [spansFrom_cons_none hinert] at h ⊢
        rw [← hseam] at h ⊢
        exact ih left.length (by simp) h rfl
      | some after =>
        have hsuffix := suffix_afterInert? hinert
        have hlength := hsuffix.length_le
        rw [spansFrom_cons_some hinert] at h ⊢
        rw [List.length_append] at h hlength ⊢
        rw [List.length_cons] at h ⊢
        -- the span ends in front of the seam, since it starts there
        have hstop : right.length ≤ after.length := by
          rcases h _ List.mem_cons_self with hstop | hstart
          · dsimp only at hstop
            omega
          · dsimp only at hstart
            omega
        obtain ⟨part, rfl⟩ := List.suffix_of_suffix_length_le (List.suffix_append left right)
          hsuffix hstop
        rw [List.length_append] at h hlength ⊢
        set next := start + (left.length + right.length + 1 - (part.length + right.length))
          with hnext
        have hseam : next + part.length = start + (left.length + 1) := by omega
        have hpart : ∀ span ∈ spansFrom next (part ++ right),
            span.stop ≤ next + part.length ∨ next + part.length ≤ span.start := by
          intro span hspan
          rw [hseam]
          exact h span (List.mem_cons_of_mem _ hspan)
        obtain ⟨front, hfront, heq⟩ := ih part.length (by rw [List.length_cons]; omega) hpart rfl
        rw [hseam] at hfront heq
        refine ⟨_ :: front, ?_, by rw [heq]; rfl⟩
        intro span hspan
        rcases List.mem_cons.mp hspan with rfl | hspan
        · dsimp only
          omega
        · exact hfront span hspan

/-- **A text behind a seam that no span goes across has its own spans.** -/
lemma spans_append {left right : List Char}
    (h : ∀ span ∈ spans (left ++ right), span.stop ≤ left.length ∨ left.length ≤ span.start) :
    ∃ front, (∀ span ∈ front, span.stop ≤ left.length) ∧
      spans (left ++ right) = front ++ (spans right).map (Span.shift left.length) := by
  have hseam : ∀ span ∈ spansFrom 0 (left ++ right),
      span.stop ≤ 0 + left.length ∨ 0 + left.length ≤ span.start := by
    intro span hspan
    rw [Nat.zero_add]
    exact h span hspan
  obtain ⟨front, hfront, hspans⟩ := spansFrom_append hseam
  rw [Nat.zero_add] at hfront
  refine ⟨front, hfront, ?_⟩
  unfold spans
  rw [hspans, spansFrom_add]

/-- A span is what one comment or quoted text takes up. -/
lemma mem_spansFrom {start : Nat} {text : List Char} {span : Span} (h : span ∈ spansFrom start text) :
    ∃ front c inside after, text = front ++ c :: (inside ++ after) ∧
      afterInert? c (inside ++ after) = some after ∧
      span = ⟨start + front.length, start + (front.length + 1 + inside.length)⟩ := by
  fun_induction spansFrom start text with
  | case1 => simp at h
  | case2 start c rest after hafter stop ih =>
    obtain ⟨inside, rfl⟩ := suffix_afterInert? hafter
    have hstop : stop = start + (inside.length + 1) := by
      simp only [stop, List.length_append]
      omega
    rcases List.mem_cons.mp h with rfl | h
    · refine ⟨[], c, inside, after, rfl, hafter, ?_⟩
      rw [hstop, Span.mk.injEq, List.length_nil]
      omega
    · obtain ⟨front, d, inside', after', rfl, hinert, rfl⟩ := ih h
      refine ⟨c :: (inside ++ front), d, inside', after', by simp, hinert, ?_⟩
      rw [hstop, Span.mk.injEq]
      simp only [List.length_cons, List.length_append]
      omega
  | case3 start c rest hnone ih =>
    obtain ⟨front, d, inside, after, rfl, hinert, rfl⟩ := ih h
    refine ⟨c :: front, d, inside, after, rfl, hinert, ?_⟩
    rw [Span.mk.injEq, List.length_cons]
    omega

/-- **A span of a text** is a comment or a quoted text in it. -/
lemma mem_spans {text : List Char} {span : Span} (h : span ∈ spans text) :
    ∃ front c inside after, text = front ++ c :: (inside ++ after) ∧
      afterInert? c (inside ++ after) = some after ∧
      span = ⟨front.length, front.length + 1 + inside.length⟩ := by
  obtain ⟨front, c, inside, after, htext, hinert, hspan⟩ := mem_spansFrom h
  rw [Nat.zero_add, Nat.zero_add] at hspan
  exact ⟨front, c, inside, after, htext, hinert, hspan⟩

/-! ## Positions -/

/-- A span covers the positions from its start on, up to its stop. -/
lemma Span.covers_iff {span : Span} {position : Nat} :
    span.covers position = true ↔ span.start ≤ position ∧ position < span.stop := by
  simp [Span.covers]

/-- A span starts with a mark. -/
lemma mark_of_mem_spans {text : List Char} {span : Span} (h : span ∈ spans text) :
    ∃ c, text[span.start]? = some c ∧ isInertMark c = true := by
  obtain ⟨front, c, inside, after, rfl, hinert, rfl⟩ := mem_spans h
  exact ⟨c, by simp, afterInert?_starts hinert⟩

/-- No span starts in a part of the text that has no mark. -/
lemma start_of_no_mark {left part right : List Char} (hpart : ∀ c ∈ part, isInertMark c = false)
    {span : Span} (h : span ∈ spans (left ++ part ++ right)) :
    span.start < left.length ∨ (left ++ part).length ≤ span.start := by
  obtain ⟨c, hc, hmark⟩ := mark_of_mem_spans h
  rw [List.length_append]
  by_contra hin
  have hmem : c ∈ part := by
    rw [List.append_assoc, List.getElem?_append_right (by omega),
      List.getElem?_append_left (by omega)] at hc
    exact List.mem_of_getElem? hc
  rw [hpart c hmem] at hmark
  exact Bool.noConfusion hmark

/-- **Between quiet positions no span begins or ends,** so it covers all of them or none. -/
lemma covers_eq_of_quiet {text : List Char} {first last : Nat}
    (hquiet : ∀ i, first ≤ i → i ≤ last → ∃ c, text[i]? = some c ∧ isInertMark c = false ∧ c ≠ '\n')
    {span : Span} (h : span ∈ spans text) (hle : first ≤ last) :
    span.covers first = span.covers last := by
  obtain ⟨front, c, inside, after, rfl, hinert, rfl⟩ := mem_spans h
  -- neither the first mark nor what ends the span lies in the stretch
  have hstart : ¬ (first < front.length ∧ front.length ≤ last) := by
    rintro ⟨hfirst, hlast⟩
    obtain ⟨d, hd, hmark, -⟩ := hquiet front.length (by omega) hlast
    obtain rfl : c = d := by simpa using hd
    rw [afterInert?_starts hinert] at hmark
    exact Bool.noConfusion hmark
  have hstop : ¬ (first < front.length + 1 + inside.length ∧
      front.length + 1 + inside.length ≤ last) := by
    rintro ⟨hfirst, hlast⟩
    have hcut : front ++ c :: (inside ++ after) = (front ++ c :: inside) ++ after := by simp
    have hlength : (front ++ c :: inside).length = front.length + 1 + inside.length := by
      simp only [List.length_append, List.length_cons]
      omega
    rcases afterInert?_stops hinert with rfl | ⟨rest, rfl⟩ | ⟨inner, d, rfl, hd⟩
    · obtain ⟨e, he, -⟩ := hquiet _ (by omega) hlast
      rw [hcut, ← hlength, List.getElem?_append_right (Nat.le_refl _)] at he
      simp at he
    · obtain ⟨e, he, -, hfeed⟩ := hquiet _ (by omega) hlast
      rw [hcut, ← hlength, List.getElem?_append_right (Nat.le_refl _)] at he
      exact hfeed (by simpa using he.symm)
    · obtain ⟨e, he, hmark, -⟩ := hquiet (front ++ c :: inner).length
        (by simp only [List.length_append, List.length_cons, List.length_nil] at hfirst ⊢; omega)
        (by simp only [List.length_append, List.length_cons, List.length_nil] at hlast ⊢; omega)
      have hsplit : front ++ c :: (inner ++ [d] ++ after) = (front ++ c :: inner) ++ d :: after := by
        simp
      rw [hsplit, List.getElem?_append_right (Nat.le_refl _), Nat.sub_self] at he
      obtain rfl : d = e := by simpa using he
      rw [hd] at hmark
      exact Bool.noConfusion hmark
  rw [Bool.eq_iff_iff, Span.covers_iff, Span.covers_iff]
  dsimp only
  omega

/-! ## Names in code -/

/-- The name stands at the position as a word of its own, and nothing of it lies in a comment or in
quoted text. -/
structure InCodeAt (name text : List Char) (position : Nat) : Prop where
  occurs : name <+: text.drop position
  before : (text.take position).getLast?.any isNameChar = false
  after : (text.drop (position + name.length)).head?.any isNameChar = false
  in_code : ∀ i < name.length, ∀ span ∈ spans text, span.covers (position + i) = false

/-- Does the name stand somewhere in code? -/
def standsInCode (name text : List Char) : Bool :=
  let inert := spans text
  (List.range text.length).any fun position =>
    name.isPrefixOf (text.drop position) && !(text.take position).getLast?.any isNameChar
      && !(text.drop (position + name.length)).head?.any isNameChar
      && (List.range name.length).all fun i => inert.all fun span => !span.covers (position + i)

/-- `standsInCode` decides whether the name has a place in code. -/
lemma standsInCode_iff {name text : List Char} (hname : name ≠ []) :
    standsInCode name text = true ↔ ∃ position, InCodeAt name text position := by
  simp only [standsInCode, List.any_eq_true, List.mem_range, Bool.and_eq_true, Bool.not_eq_true',
    List.all_eq_true, List.isPrefixOf_iff_prefix]
  constructor
  · rintro ⟨position, -, ⟨⟨hoccurs, hbefore⟩, hafter⟩, hcode⟩
    exact ⟨position, hoccurs, hbefore, hafter, hcode⟩
  · rintro ⟨position, hoccurs, hbefore, hafter, hcode⟩
    refine ⟨position, ?_, ⟨⟨hoccurs, hbefore⟩, hafter⟩, hcode⟩
    -- behind the end of the text there is no name
    by_contra hlength
    rw [List.drop_of_length_le (Nat.le_of_not_lt hlength), List.prefix_nil] at hoccurs
    exact hname hoccurs

end CachedRoutes.Code
