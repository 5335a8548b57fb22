import CachedRoutes.Proofs.Code.Bracket
import CachedRoutes.Proofs.Code.Span

/-!
# Places inside of comments and quoted texts

A place lies between two characters. It is inside of a span if both of them belong to the span, so that
what is written there becomes part of a comment or of quoted text.

* **Order.** `spans_pairwise`: a span ends in front of the next one.
* **Seams.** `insideAt_append`: behind a seam that is not inside of a span, the text can be read alone.
* **Resuming** (`insideAt_iff`): what is inside is decided from any earlier place on, by where the span
  ends that is open there (`resume`) and by what opens behind it.
* **Plain texts** (`not_insideAt_of_isPlain`): behind a text with at most one quoted part nothing is open.
-/

namespace CachedRoutes.Code

/-- The characters on both sides of the place belong to one span. -/
def InsideAt (text : List Char) (place : Nat) : Prop :=
  ∃ span ∈ spans text, span.start < place ∧ place < span.stop

instance (text : List Char) (place : Nat) : Decidable (InsideAt text place) :=
  inferInstanceAs (Decidable (∃ span ∈ spans text, _))

/-- Where code goes on: the end of the span that the place is inside of, or the place itself. -/
def resume (text : List Char) (place : Nat) : Nat :=
  match (spans text).find? fun span => span.start < place && place < span.stop with
  | some span => span.stop
  | none => place

/-! ## Order -/

/-- A span behind a position starts there or later. -/
lemma le_start_of_mem_spansFrom {start : Nat} {text : List Char} {span : Span}
    (h : span ∈ spansFrom start text) : start ≤ span.start := by
  obtain ⟨front, c, inside, after, -, -, rfl⟩ := mem_spansFrom h
  exact Nat.le_add_right start _

/-- A span starts where the one before it stops, or later. -/
lemma spansFrom_pairwise (start : Nat) (text : List Char) :
    (spansFrom start text).Pairwise fun a b => a.stop ≤ b.start := by
  fun_induction spansFrom start text with
  | case1 => exact List.Pairwise.nil
  | case2 start c rest after hafter stop ih =>
    refine List.pairwise_cons.mpr ⟨?_, ih⟩
    intro span hspan
    exact le_start_of_mem_spansFrom hspan
  | case3 start c rest hnone ih => exact ih

/-- **A span ends in front of the next one.** -/
lemma spans_pairwise (text : List Char) : (spans text).Pairwise fun a b => a.stop ≤ b.start :=
  spansFrom_pairwise 0 text

/-- The end of a span is not inside of a span. -/
lemma not_insideAt_stop {text : List Char} {span : Span} (h : span ∈ spans text) :
    ¬ InsideAt text span.stop := by
  rintro ⟨other, hother, hstart, hstop⟩
  obtain ⟨front, rest, hcut⟩ := List.append_of_mem h
  have hpairwise := spans_pairwise text
  rw [hcut] at hpairwise hother
  obtain ⟨-, hrest, hfront⟩ := List.pairwise_append.mp hpairwise
  rcases List.mem_append.mp hother with hother | hother
  · have hspan := hfront other hother span List.mem_cons_self
    obtain ⟨first, c, inside, after, -, -, rfl⟩ := mem_spans h
    dsimp only at hspan hstop
    omega
  · rcases List.mem_cons.mp hother with rfl | hother
    · exact Nat.lt_irrefl _ hstop
    · have hother := (List.pairwise_cons.mp hrest).1 other hother
      omega

/-- No span reaches behind the end of the text. -/
lemma stop_le_length {text : List Char} {span : Span} (h : span ∈ spans text) :
    span.stop ≤ text.length := by
  obtain ⟨front, c, inside, after, rfl, -, rfl⟩ := mem_spans h
  simp only [List.length_append, List.length_cons]
  omega

/-! ## Seams -/

/-- **Behind a seam that is not inside of a span, the text can be read alone.** -/
lemma insideAt_append {left right : List Char} (h : ¬ InsideAt (left ++ right) left.length)
    (place : Nat) : InsideAt (left ++ right) (left.length + place) ↔ InsideAt right place := by
  have hseam : ∀ span ∈ spans (left ++ right),
      span.stop ≤ left.length ∨ left.length ≤ span.start := by
    intro span hspan
    by_contra hacross
    exact h ⟨span, hspan, by omega, by omega⟩
  obtain ⟨front, hfront, hspans⟩ := spans_append hseam
  unfold InsideAt
  rw [hspans]
  constructor
  · rintro ⟨span, hspan, hstart, hstop⟩
    rcases List.mem_append.mp hspan with hspan | hspan
    · have hbefore := hfront span hspan
      omega
    · obtain ⟨alone, halone, rfl⟩ := List.mem_map.mp hspan
      dsimp only [Span.shift] at hstart hstop
      exact ⟨alone, halone, by omega, by omega⟩
  · rintro ⟨alone, halone, hstart, hstop⟩
    refine ⟨_, List.mem_append_right _ (List.mem_map_of_mem halone), ?_, ?_⟩
    · dsimp only [Span.shift]
      omega
    · dsimp only [Span.shift]
      omega

/-! ## Resuming -/

/-- Outside of all spans, a search resumes where it is. -/
lemma resume_of_not_insideAt {text : List Char} {place : Nat} (h : ¬ InsideAt text place) :
    resume text place = place := by
  unfold resume
  split
  · rename_i span hspan
    have hacross := List.find?_some hspan
    rw [Bool.and_eq_true, decide_eq_true_eq, decide_eq_true_eq] at hacross
    exact absurd ⟨span, List.mem_of_find?_eq_some hspan, hacross⟩ h
  · rfl

/-- Inside of a span, a search resumes at its end. -/
lemma resume_of_insideAt {text : List Char} {place : Nat} (h : InsideAt text place) :
    ∃ span ∈ spans text, span.start < place ∧ place < span.stop ∧
      resume text place = span.stop := by
  unfold resume
  split
  · rename_i span hspan
    have hacross := List.find?_some hspan
    rw [Bool.and_eq_true, decide_eq_true_eq, decide_eq_true_eq] at hacross
    exact ⟨span, List.mem_of_find?_eq_some hspan, hacross.1, hacross.2, rfl⟩
  · rename_i hnone
    obtain ⟨span, hspan, hstart, hstop⟩ := h
    have hnot := List.find?_eq_none.mp hnone span hspan
    simp [hstart, hstop] at hnot

/-- **What is inside can be decided from an earlier place on.** Either the span that is open there
reaches over the later place, or code goes on in front of it and something opens behind that. -/
lemma insideAt_iff {text : List Char} {place later : Nat} (hlater : place ≤ later)
    (hlength : place ≤ text.length) :
    InsideAt text later ↔ later < resume text place ∨
      resume text place ≤ later ∧
        InsideAt (text.drop (resume text place)) (later - resume text place) := by
  -- in both cases the text is cut where code goes on
  have hcut : ∀ {seam}, seam ≤ text.length → ¬ InsideAt text seam → seam ≤ later →
      (InsideAt text later ↔ InsideAt (text.drop seam) (later - seam)) := by
    intro seam hseam houtside hle
    have htake : (text.take seam).length = seam := List.length_take_of_le hseam
    have hiff := @insideAt_append (text.take seam) (text.drop seam)
      (by rwa [List.take_append_drop, htake]) (later - seam)
    rwa [List.take_append_drop, htake, Nat.add_sub_cancel' hle] at hiff
  by_cases hopen : InsideAt text place
  · obtain ⟨span, hspan, hstart, hstop, hresume⟩ := resume_of_insideAt hopen
    rw [hresume]
    by_cases hover : later < span.stop
    · exact iff_of_true ⟨span, hspan, by omega, hover⟩ (.inl hover)
    · rw [hcut (stop_le_length hspan) (not_insideAt_stop hspan) (by omega)]
      constructor
      · exact fun hinside => .inr ⟨by omega, hinside⟩
      · exact fun hinside => (hinside.resolve_left hover).2
  · rw [resume_of_not_insideAt hopen, hcut hlength hopen hlater]
    constructor
    · exact fun hinside => .inr ⟨hlater, hinside⟩
    · exact fun hinside => (hinside.resolve_left (by omega)).2

/-! ## Plain texts -/

/-- Nothing opens in a text without slashes and quotes. -/
lemma not_insideAt_of_no_mark {text rest : List Char} (h : ∀ c ∈ text, isInertMark c = false) :
    ¬ InsideAt (text ++ rest) text.length := by
  rintro ⟨span, hspan, hstart, -⟩
  have hspan' : span ∈ spans ([] ++ text ++ rest) := hspan
  rcases start_of_no_mark h hspan' with hnever | hlate
  · exact absurd hnever (Nat.not_lt_zero _)
  · rw [List.nil_append] at hlate
    omega

/-- Without the quote, backslashes and line feeds, a text can stand between quotes as it is. -/
lemma quotedBody_of_plain {quote : Char} {body : List Char}
    (h : (body.all fun c => c != quote && c != '\\' && c != '\n') = true) :
    QuotedBody quote body := by
  induction body with
  | nil => exact .nil
  | cons c body ih =>
    rw [List.all_cons, Bool.and_eq_true] at h
    simp only [Bool.and_eq_true, bne_iff_ne] at h
    exact .char h.1.1.1 h.1.1.2 h.1.2 (ih h.2)

/-- Nothing is open behind a quoted text that is closed. -/
lemma not_insideAt_quoted {quote : Char} {body : List Char}
    (hquote : quote = '\x27' ∨ quote = '\x22') (hbody : QuotedBody quote body) (rest : List Char) :
    ¬ InsideAt (quote :: (body ++ [quote]) ++ rest) (quote :: (body ++ [quote])).length := by
  have hcut : quote :: (body ++ [quote]) ++ rest = quote :: (body ++ quote :: rest) := by simp
  have hinert : afterInert? quote (body ++ quote :: rest) = some rest := by
    have hclosed := @afterQuoted?_body quote body rest hquote hbody
    rcases hquote with rfl | rfl
    · simp [afterInert?, isQuote, hclosed]
    · simp [afterInert?, isQuote, hclosed]
  have hmem : (⟨0, (quote :: (body ++ [quote])).length⟩ : Span)
      ∈ spans (quote :: (body ++ [quote]) ++ rest) := by
    rw [hcut, spans, spansFrom_cons_some hinert]
    apply List.mem_cons.mpr
    left
    rw [Span.mk.injEq]
    refine ⟨rfl, ?_⟩
    simp only [List.length_append, List.length_cons, List.length_nil]
    omega
  exact not_insideAt_stop hmem

/-- A text with at most one quoted part, and without other quotes and slashes. -/
inductive IsPlain : List Char → Prop where
  | bare {text : List Char} (htext : ∀ c ∈ text, isInertMark c = false) : IsPlain text
  | quoting {left body right : List Char} {quote : Char} (hleft : ∀ c ∈ left, isInertMark c = false)
      (hquote : quote = '\x27' ∨ quote = '\x22') (hbody : QuotedBody quote body)
      (hright : ∀ c ∈ right, isInertMark c = false) :
      IsPlain (left ++ (quote :: (body ++ [quote]) ++ right))

/-- **Behind a plain text nothing is open.** -/
lemma not_insideAt_of_isPlain {text : List Char} (h : IsPlain text) (rest : List Char) :
    ¬ InsideAt (text ++ rest) text.length := by
  cases h with
  | bare htext => exact not_insideAt_of_no_mark htext
  | @quoting left body right quote hleft hquote hbody hright =>
    rw [List.append_assoc, List.append_assoc, List.length_append,
      insideAt_append (not_insideAt_of_no_mark hleft), List.length_append,
      insideAt_append (not_insideAt_quoted hquote hbody _)]
    exact not_insideAt_of_no_mark hright

end CachedRoutes.Code
