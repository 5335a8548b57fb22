import CachedRoutes.Proofs.Code.Grammar
import CachedRoutes.Proofs.Code.Inside

/-!
# The one way to cut a text into code, comments and quoted texts

What a list of spans has to be, without saying how it is found: the spans are in order, each is a whole
comment or quoted text, and nothing opens outside of them. There is one such list for each text, and it
is the one that the scanner finds.

* **Pieces** (`Inert`): what a span holds, with what follows it. A line comment ends in front of the
  line feed. Quoted text that is not closed ends with its line, and a block comment that is not closed
  ends with the text.
* **Openings** (`Opens`): a quote, `//` or `/*`.
* **Segmentation** (`Segments`): `segments_spans` and `Segments.eq`.
-/

namespace CachedRoutes.Code

/-! ## Pieces -/

/-- The first text is a whole comment or quoted text, where the second text follows it. -/
inductive Inert : List Char → List Char → Prop where
  | line {body rest : List Char} (hbody : '\n' ∉ body) (hrest : ∀ c ∈ rest.head?, c = '\n') :
      Inert ('/' :: '/' :: body) rest
  | block {body rest : List Char} (hbody : ¬ ['*', '/'] <:+: body) :
      Inert ('/' :: '*' :: (body ++ ['*', '/'])) rest
  /-- Nothing closes the comment. -/
  | openBlock {body : List Char} (hbody : ¬ ['*', '/'] <:+: body) : Inert ('/' :: '*' :: body) []
  | quoted {quote : Char} {body rest : List Char} (hquote : isQuote quote = true)
      (hbody : Enclosed quote body) : Inert (quote :: (body ++ [quote])) rest
  /-- Nothing closes the quoted text, here or later. -/
  | openQuoted {quote : Char} {line rest : List Char} (hquote : isQuote quote = true)
      (hline : '\n' ∉ line) (hrest : ∀ c ∈ rest.head?, c = '\n')
      (hopen : ∀ body after, Enclosed quote body → line ++ rest ≠ body ++ quote :: after) :
      Inert (quote :: line) rest

/-- A comment or quoted text opens at the start of the text. -/
def Opens (text : List Char) : Prop :=
  (∃ c ∈ text.head?, isQuote c = true) ∨ ['/', '/'] <+: text ∨ ['/', '*'] <+: text

/-- A quote opens a quoted text, which ends with its quote or else with the line. -/
lemma afterInert?_quote {quote : Char} (hquote : isQuote quote = true) (rest : List Char) :
    afterInert? quote rest = some ((afterQuoted? quote rest).getD (afterLine rest)) := by
  rw [afterInert?, if_pos hquote]
  · rintro line rfl
    exact absurd hquote (by decide)
  · rintro block rfl
    exact absurd hquote (by decide)

/-- Nothing is passed over exactly if neither a comment nor a quoted text opens. -/
lemma afterInert?_eq_none_iff {c : Char} {rest : List Char} :
    afterInert? c rest = none ↔ ¬ Opens (c :: rest) := by
  unfold afterInert? Opens
  split
  · simp
  · simp
  · rename_i hline hblock
    have hslash : ∀ {d : Char}, (∀ tail, c = '/' → rest = d :: tail → False) →
        ¬ ['/', d] <+: c :: rest := by
      rintro d hno ⟨tail, htail⟩
      obtain ⟨rfl, hrest⟩ := List.cons.inj htail
      exact hno tail rfl hrest.symm
    have hno₁ := hslash hline
    have hno₂ := hslash hblock
    by_cases hquote : isQuote c = true
    · simp [hquote]
    · simp [hquote, hno₁, hno₂]

/-- An inert piece is passed over as a whole. -/
lemma Inert.afterInert? {c : Char} {inside rest : List Char} (h : Inert (c :: inside) rest) :
    Code.afterInert? c (inside ++ rest) = some rest := by
  generalize hpiece : c :: inside = piece at h
  cases h with
  | line hbody hrest =>
    obtain ⟨rfl, rfl⟩ := List.cons.inj hpiece
    rw [List.cons_append, Code.afterInert?, afterLine_body hbody hrest]
  | block hbody =>
    obtain ⟨rfl, rfl⟩ := List.cons.inj hpiece
    rw [List.cons_append, Code.afterInert?, afterBlock, List.append_assoc]
    simp [afterBlock?_comment hbody]
  | openBlock hbody =>
    obtain ⟨rfl, rfl⟩ := List.cons.inj hpiece
    rw [List.cons_append, Code.afterInert?, List.append_nil, afterBlock,
      afterBlock?_eq_none_iff.mpr hbody, Option.getD_none]
  | quoted hquote hbody =>
    obtain ⟨rfl, rfl⟩ := List.cons.inj hpiece
    rw [afterInert?_quote hquote, List.append_assoc, List.singleton_append,
      (afterQuoted?_eq_some_iff hquote).mpr ⟨_, hbody, rfl⟩, Option.getD_some]
  | openQuoted hquote hline hrest hopen =>
    obtain ⟨rfl, rfl⟩ := List.cons.inj hpiece
    have hnone : afterQuoted? c (inside ++ rest) = none := by
      rw [Option.eq_none_iff_forall_ne_some]
      intro after hafter
      obtain ⟨body, hbody, heq⟩ := (afterQuoted?_eq_some_iff hquote).mp hafter
      exact hopen body after hbody heq
    rw [afterInert?_quote hquote, hnone, Option.getD_none, afterLine_body hline hrest]

/-- What stands in front of the end of a line. -/
lemma exists_line (text : List Char) :
    ∃ line, text = line ++ afterLine text ∧ '\n' ∉ line ∧ ∀ c ∈ (afterLine text).head?, c = '\n' := by
  obtain ⟨line, hline, ⟨rfl, hnil⟩ | ⟨rest, rfl, hfeed⟩⟩ := exists_line_body text
  · exact ⟨text, by rw [hnil, List.append_nil], hline, by simp [hnil]⟩
  · exact ⟨line, by rw [hfeed], hline, by simp [hfeed]⟩

/-- What is passed over as a whole is an inert piece. -/
lemma inert_of_afterInert? {c : Char} {inside rest : List Char}
    (h : afterInert? c (inside ++ rest) = some rest) : Inert (c :: inside) rest := by
  generalize htext : inside ++ rest = text at h
  unfold afterInert? at h
  split at h
  · rename_i line
    obtain ⟨body, hcut, hbody, hhead⟩ := exists_line line
    rw [Option.some.inj h] at hcut hhead
    have hinside : inside = '/' :: body := by
      apply (List.append_left_inj rest).mp
      rw [htext, hcut, List.cons_append]
    rw [hinside]
    exact .line hbody hhead
  · rename_i block
    have hafter := Option.some.inj h
    unfold afterBlock at hafter
    cases hclosed : afterBlock? block with
    | none =>
      rw [hclosed, Option.getD_none] at hafter
      obtain rfl := hafter
      rw [List.append_nil] at htext
      rw [htext]
      exact .openBlock (afterBlock?_eq_none_iff.mp hclosed)
    | some after =>
      rw [hclosed, Option.getD_some] at hafter
      obtain rfl := hafter
      obtain ⟨body, hbody, hcut⟩ := afterBlock?_eq_some_iff.mp hclosed
      have hinside : inside = '*' :: (body ++ ['*', '/']) := by
        apply (List.append_left_inj after).mp
        rw [htext, hcut]
        simp
      rw [hinside]
      exact .block hbody
  · split at h
    · rename_i hquote
      have hafter := Option.some.inj h
      cases hclosed : afterQuoted? c text with
      | none =>
        rw [hclosed, Option.getD_none] at hafter
        obtain ⟨line, hcut, hline, hhead⟩ := exists_line text
        rw [hafter] at hcut hhead
        have hinside : inside = line := by
          apply (List.append_left_inj rest).mp
          rw [htext, hcut]
        rw [hinside]
        refine .openQuoted hquote hline hhead ?_
        intro body after hbody heq
        rw [← hcut] at heq
        rw [(afterQuoted?_eq_some_iff hquote).mpr ⟨body, hbody, heq⟩] at hclosed
        simp at hclosed
      | some after =>
        rw [hclosed, Option.getD_some] at hafter
        obtain rfl := hafter
        obtain ⟨body, hbody, hcut⟩ := (afterQuoted?_eq_some_iff hquote).mp hclosed
        have hinside : inside = body ++ [c] := by
          apply (List.append_left_inj after).mp
          rw [htext, hcut]
          simp
        rw [hinside]
        exact .quoted hquote hbody
    · simp at h

/-- An inert piece is not empty. -/
lemma Inert.exists_cons {piece rest : List Char} (h : Inert piece rest) :
    ∃ c inside, piece = c :: inside := by
  cases h <;> exact ⟨_, _, rfl⟩

/-- An inert piece opens a comment or a quoted text. -/
lemma Inert.opens {piece rest : List Char} (h : Inert piece rest) : Opens (piece ++ rest) := by
  obtain ⟨c, inside, rfl⟩ := h.exists_cons
  by_contra hclosed
  rw [List.cons_append, ← afterInert?_eq_none_iff, h.afterInert?] at hclosed
  simp at hclosed

/-- From one place on there is one piece. -/
lemma Inert.unique {piece piece' rest rest' : List Char} (h : Inert piece rest)
    (h' : Inert piece' rest') (heq : piece ++ rest = piece' ++ rest') : piece = piece' := by
  obtain ⟨c, inside, rfl⟩ := h.exists_cons
  obtain ⟨d, inside', rfl⟩ := h'.exists_cons
  obtain ⟨rfl, htail⟩ := List.cons.inj heq
  have hafter := h.afterInert?
  rw [show inside ++ rest = inside' ++ rest' from htail, h'.afterInert?] at hafter
  obtain rfl := Option.some.inj hafter
  exact (List.append_left_inj rest').mp heq

/-! ## Segmentation -/

/-- The text that a span holds. -/
def Span.part (span : Span) (text : List Char) : List Char :=
  (text.drop span.start).take (span.stop - span.start)

/-- The list cuts the text into code, comments and quoted texts, from left to right. -/
structure Segments (text : List Char) (list : List Span) : Prop where
  nonempty : ∀ span ∈ list, span.start < span.stop
  /-- Each span ends where the next one starts, or in front of it. -/
  ordered : list.Pairwise fun a b => a.stop ≤ b.start
  within : ∀ span ∈ list, span.stop ≤ text.length
  /-- Each span holds a whole comment or quoted text. -/
  inert : ∀ span ∈ list, Inert (span.part text) (text.drop span.stop)
  /-- Nothing opens outside of the spans. -/
  covered : ∀ position, Opens (text.drop position) → ∃ span ∈ list, span.covers position = true

/-- The part of a span, and what follows it, are the text from the span on. -/
lemma part_append_drop {text : List Char} {span : Span} (h : span.start ≤ span.stop) :
    span.part text ++ text.drop span.stop = text.drop span.start := by
  have hdrop : text.drop span.stop = (text.drop span.start).drop (span.stop - span.start) := by
    rw [List.drop_drop, Nat.add_sub_cancel' h]
  rw [Span.part, hdrop, List.take_append_drop]

/-- What opens in a text is covered by its spans. -/
lemma exists_covers_of_opens {start : Nat} {text : List Char} {offset : Nat}
    (h : Opens (text.drop offset)) :
    ∃ span ∈ spansFrom start text, span.covers (start + offset) = true := by
  fun_induction spansFrom start text generalizing offset with
  | case1 => simp [Opens] at h
  | case2 start c rest after hafter stop =>
    rename_i ih
    obtain ⟨inside, rfl⟩ := suffix_afterInert? hafter
    have hstop : stop = start + (inside.length + 1) := by
      simp only [stop, List.length_append]
      omega
    by_cases hinside : offset < inside.length + 1
    · refine ⟨_, List.mem_cons_self, Span.covers_iff.mpr ⟨Nat.le_add_right _ _, ?_⟩⟩
      dsimp only
      omega
    · have hdrop : (c :: (inside ++ after)).drop offset
          = after.drop (offset - (inside.length + 1)) := by
        rw [← List.cons_append, List.drop_append, List.drop_of_length_le (by simpa using hinside),
          List.nil_append, List.length_cons]
      rw [hdrop] at h
      obtain ⟨span, hspan, hcovers⟩ := ih h
      refine ⟨span, List.mem_cons_of_mem _ hspan, ?_⟩
      have hposition : stop + (offset - (inside.length + 1)) = start + offset := by omega
      rwa [hposition] at hcovers
  | case3 start c rest hnone ih =>
    cases offset with
    | zero => exact absurd h (afterInert?_eq_none_iff.mp hnone)
    | succ offset =>
      obtain ⟨span, hspan, hcovers⟩ := ih h
      refine ⟨span, hspan, ?_⟩
      rwa [Nat.add_right_comm] at hcovers

/-- **The spans of a text cut it.** -/
lemma segments_spans (text : List Char) : Segments text (spans text) where
  nonempty span hspan := by
    obtain ⟨front, c, inside, after, -, -, rfl⟩ := mem_spans hspan
    dsimp only
    omega
  ordered := spans_pairwise text
  within span hspan := stop_le_length hspan
  inert span hspan := by
    obtain ⟨front, c, inside, after, rfl, hinert, rfl⟩ := mem_spans hspan
    have hcut : front ++ c :: (inside ++ after) = (front ++ c :: inside) ++ after := by simp
    have hlength : front.length + 1 + inside.length = (front ++ c :: inside).length := by
      simp only [List.length_append, List.length_cons]
      omega
    have hdrop : (front ++ c :: (inside ++ after)).drop (front.length + 1 + inside.length)
        = after := by
      rw [hcut, hlength, List.drop_left]
    have hpart : Span.part ⟨front.length, front.length + 1 + inside.length⟩
        (front ++ c :: (inside ++ after)) = c :: inside := by
      have hwidth : front.length + 1 + inside.length - front.length = (c :: inside).length := by
        rw [List.length_cons]
        omega
      rw [Span.part, List.drop_left, hwidth, ← List.cons_append, List.take_left]
    rw [hdrop, hpart]
    exact inert_of_afterInert? hinert
  covered position hopens := by
    obtain ⟨span, hspan, hcovers⟩ := @exists_covers_of_opens 0 text position hopens
    rw [Nat.zero_add] at hcovers
    exact ⟨span, hspan, hcovers⟩

namespace Segments

variable {text : List Char} {list other : List Span} {span span' : Span}

/-- The text opens something where a span starts. -/
lemma opens (h : Segments text list) (hspan : span ∈ list) : Opens (text.drop span.start) := by
  rw [← part_append_drop (Nat.le_of_lt (h.nonempty span hspan))]
  exact (h.inert span hspan).opens

/-- Two spans that start at the same place are the same. -/
lemma eq_of_start (h : Segments text list) (h' : Segments text other) (hspan : span ∈ list)
    (hspan' : span' ∈ other) (hstart : span.start = span'.start) : span = span' := by
  have hnonempty := h.nonempty span hspan
  have hnonempty' := h'.nonempty span' hspan'
  have hwithin := h.within span hspan
  have hwithin' := h'.within span' hspan'
  have hpart : span.part text = span'.part text := by
    apply (h.inert span hspan).unique (h'.inert span' hspan')
    rw [part_append_drop (Nat.le_of_lt hnonempty), part_append_drop (Nat.le_of_lt hnonempty'),
      hstart]
  have hlength := congrArg List.length hpart
  simp only [Span.part, List.length_take, List.length_drop] at hlength
  have hstop : span.stop = span'.stop := by omega
  cases span
  cases span'
  rw [Span.mk.injEq]
  exact ⟨hstart, hstop⟩

/-- Spans of one list that cover the same position are the same. -/
lemma eq_of_covers (h : Segments text list) (hspan : span ∈ list) (hspan' : span' ∈ list)
    {position : Nat} (hcovers : span.covers position = true)
    (hcovers' : span'.covers position = true) : span = span' := by
  rw [Span.covers_iff] at hcovers hcovers'
  by_contra hne
  have : Std.Symm fun a b : Span => a.stop ≤ b.start ∨ b.stop ≤ a.start := ⟨fun _ _ => Or.symm⟩
  have hapart : list.Pairwise fun a b => a.stop ≤ b.start ∨ b.stop ≤ a.start :=
    h.ordered.imp Or.inl
  have horder := hapart.forall hspan hspan' hne
  omega

/-- **A span of one list is a span of the other.** By the position where it starts: there the other list
has a span that covers the opening. One that starts earlier would be in both lists, and there is room
for one of the two only. -/
lemma mem (h : Segments text list) (h' : Segments text other) (hspan : span ∈ list) :
    span ∈ other := by
  induction hn : span.start using Nat.strong_induction_on generalizing span list other with
  | _ n ih =>
    obtain ⟨span', hspan', hcovers⟩ := h'.covered _ (h.opens hspan)
    have hbounds := Span.covers_iff.mp hcovers
    rcases Nat.lt_or_eq_of_le hbounds.1 with hlt | heq
    · have hmem := ih span'.start (hn ▸ hlt) h' h hspan' rfl
      have hself : span.covers span.start = true :=
        Span.covers_iff.mpr ⟨Nat.le_refl _, h.nonempty span hspan⟩
      rw [h.eq_of_covers hspan hmem hself hcovers]
      exact hspan'
    · rw [h.eq_of_start h' hspan hspan' heq.symm]
      exact hspan'

/-- The spans of a segmentation start one after the other. -/
lemma pairwise_start (h : Segments text list) : list.Pairwise fun a b => a.start < b.start :=
  h.ordered.imp_of_mem fun {a _} ha _ hle => Nat.lt_of_lt_of_le (h.nonempty a ha) hle

/-- **A text is cut in one way only.** -/
lemma eq (h : Segments text list) (h' : Segments text other) : list = other := by
  have hnodup : ∀ {spans : List Span}, (spans.Pairwise fun a b => a.start < b.start) →
      spans.Nodup := by
    intro spans hordered
    apply hordered.imp
    rintro a b hlt rfl
    exact Nat.lt_irrefl _ hlt
  have hperm : list.Perm other := by
    apply (List.perm_ext_iff_of_nodup (hnodup h.pairwise_start) (hnodup h'.pairwise_start)).mpr
    exact fun span => ⟨h.mem h', h'.mem h⟩
  exact hperm.eq_of_pairwise (fun a b _ _ hab hba => absurd hab (Nat.lt_asymm hba))
    h.pairwise_start h'.pairwise_start

end Segments

/-- **The spans are the one way to cut a text.** -/
lemma segments_iff {text : List Char} {list : List Span} :
    Segments text list ↔ list = spans text := by
  constructor
  · exact fun h => h.eq (segments_spans text)
  · rintro rfl
    exact segments_spans text

end CachedRoutes.Code
