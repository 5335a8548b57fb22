import CachedRoutes.Proofs.Code.Segment

/-!
# Matching parentheses and spans agree on what is code

Two scanners pass over comments and quoted texts: the one that lists their spans, and the one that looks
for the match of a parenthesis. Here the match is found from the spans: it is where the parentheses
outside of all spans are first in balance. The two differ in what they do where something is not closed.
The spans go on behind the line or the text, and the search for the match gives up.

* **Code** (`codeOf`): the text with a gap for each character that a span covers.
* **Seams** (`Seam`): behind a character of code, and behind a whole comment or quoted text, the rest
  has the spans that it has alone.
* **Counting** (`FirstExcess`): the first place where closing parentheses outnumber opening ones by a
  given number, with one lemma for each kind of mark.
* **Agreement** (`closing?_eq_some_iff`), by the steps of the search, and `matchingParen?_eq_some_iff`
  for a parenthesis anywhere in a text.
-/

namespace CachedRoutes.Code

/-! ## Code -/

/-- No span covers the position. -/
def isCodeAt (text : List Char) (position : Nat) : Bool :=
  (spans text).all fun span => !span.covers position

/-- The characters outside of all spans, in their places. -/
def codeOf (text : List Char) : List (Option Char) :=
  text.mapIdx fun position c => if isCodeAt text position then some c else none

/-- How often the character stands in the code from one position up to, and without, another. -/
def codeCount (text : List Char) (c : Char) (first stop : Nat) : Nat :=
  (((codeOf text).drop first).take (stop - first)).count (some c)

/-- A comment or quoted text that is closed. A line comment needs nothing to close it. -/
inductive Terminated : List Char → Prop where
  | line {body : List Char} : Terminated ('/' :: '/' :: body)
  | block {body : List Char} (hbody : ¬ ['*', '/'] <:+: body) :
      Terminated ('/' :: '*' :: (body ++ ['*', '/']))
  | quoted {quote : Char} {body : List Char} (hquote : isQuote quote = true)
      (hbody : Enclosed quote body) : Terminated (quote :: (body ++ [quote]))

/-- All spans that start between two positions are closed. -/
def TerminatedFrom (text : List Char) (first stop : Nat) : Prop :=
  ∀ span ∈ spans text, first ≤ span.start → span.start < stop → Terminated (span.part text)

/-- Behind the end of the text all is code. -/
lemma isCodeAt_of_le {text : List Char} {position : Nat} (h : text.length ≤ position) :
    isCodeAt text position = true := by
  rw [isCodeAt, List.all_eq_true]
  intro span hspan
  have hstop := stop_le_length hspan
  rw [Bool.not_eq_true', Bool.eq_false_iff, ne_eq, Span.covers_iff]
  omega

/-- A gap stands exactly for a position that is not in code. -/
lemma codeOf_ne_gap_iff {text : List Char} {position : Nat} :
    (codeOf text)[position]? ≠ some none ↔ isCodeAt text position = true := by
  unfold codeOf
  rw [List.getElem?_mapIdx]
  rcases Nat.lt_or_ge position text.length with hlt | hge
  · rw [List.getElem?_eq_getElem hlt]
    cases isCodeAt text position <;> simp
  · rw [List.getElem?_eq_none hge, isCodeAt_of_le hge]
    simp

/-! ## Seams -/

/-- No span goes across the seam of two texts: there are those in front of it, and behind it those of
the second text. -/
structure Seam (front rest : List Char) (part : List Span) : Prop where
  stop_le : ∀ span ∈ part, span.stop ≤ front.length
  spans_eq : spans (front ++ rest) = part ++ (spans rest).map (Span.shift front.length)

section Seams

variable {c : Char} {front inside rest after : List Char} {part : List Span}

/-- Behind a character of code there is a seam. -/
lemma seam_code (h : afterInert? c rest = none) : Seam [c] rest [] := by
  refine ⟨by simp, ?_⟩
  unfold spans
  rw [List.singleton_append, spansFrom_cons_none h, spansFrom_add]
  rfl

/-- The first span of a text that starts with a comment or quoted text. -/
lemma part_first (inside after : List Char) :
    Span.part ⟨0, (c :: inside).length⟩ (c :: inside ++ after) = c :: inside := by
  rw [Span.part, List.drop_zero, Nat.sub_zero, List.take_left]

/-- Behind a comment or a quoted text there is a seam. -/
lemma seam_inert (h : afterInert? c (inside ++ after) = some after) :
    Seam (c :: inside) after [⟨0, (c :: inside).length⟩] := by
  refine ⟨by simp, ?_⟩
  have hlength : (inside ++ after).length + 1 - after.length = (c :: inside).length := by
    rw [List.length_append, List.length_cons]
    omega
  unfold spans
  rw [List.cons_append, spansFrom_cons_some h, hlength, Nat.zero_add, ← spansFrom_add, Nat.zero_add]
  rfl

/-- There is a seam in front of a position in code. -/
lemma exists_seam (h : isCodeAt (front ++ c :: rest) front.length = true) :
    ∃ part, Seam front (c :: rest) part := by
  have happart : ∀ span ∈ spans (front ++ c :: rest),
      span.stop ≤ front.length ∨ front.length ≤ span.start := by
    intro span hspan
    have hcovers := List.all_eq_true.mp h span hspan
    rw [Bool.not_eq_true', Bool.eq_false_iff, ne_eq, Span.covers_iff] at hcovers
    omega
  obtain ⟨part, hpart, hspans⟩ := spans_append happart
  exact ⟨part, hpart, hspans⟩

namespace Seam

/-- Behind the seam the same positions are in code. -/
lemma isCodeAt_add (h : Seam front rest part) (position : Nat) :
    isCodeAt (front ++ rest) (position + front.length) = isCodeAt rest position := by
  have hfront : (part.all fun span => !span.covers (position + front.length)) = true := by
    rw [List.all_eq_true]
    intro span hspan
    have hstop := h.stop_le span hspan
    rw [Bool.not_eq_true', Bool.eq_false_iff, ne_eq, Span.covers_iff]
    omega
  rw [isCodeAt, h.spans_eq, List.all_append, hfront, Bool.true_and, List.all_map]
  simp only [Function.comp_def, Span.covers_shift]
  rfl

/-- At a seam, what is code in the text is what is code in front of it and behind it. -/
lemma codeOf_append (h : Seam front rest part) :
    codeOf (front ++ rest)
      = (front.mapIdx fun position c =>
          if isCodeAt (front ++ rest) position then some c else none) ++ codeOf rest := by
  rw [codeOf, List.mapIdx_append]
  simp only [h.isCodeAt_add]
  rfl

/-- Behind a seam, the code is that of the rest alone. -/
lemma drop_codeOf (h : Seam front rest part) :
    (codeOf (front ++ rest)).drop front.length = codeOf rest := by
  rw [h.codeOf_append, List.drop_left' (List.length_mapIdx)]

/-- A span that is moved by the length of a front cuts the same part out of the rest. -/
lemma part_shift (front rest : List Char) (span : Span) :
    (span.shift front.length).part (front ++ rest) = span.part rest := by
  rw [Span.part, Span.part, Span.shift, Nat.add_comm span.start, ← List.drop_drop, List.drop_left]
  congr 1
  dsimp only
  omega

/-- What is closed in a text is closed in front of the seam and behind it. -/
lemma terminatedFrom_iff (h : Seam front rest part) {first : Nat} (hfirst : first ≤ front.length)
    (n : Nat) :
    TerminatedFrom (front ++ rest) first (n + front.length) ↔
      (∀ span ∈ part, first ≤ span.start → Terminated (span.part (front ++ rest))) ∧
        TerminatedFrom rest 0 n := by
  have hmem : ∀ span, span ∈ spans (front ++ rest) ↔
      span ∈ part ∨ ∃ span' ∈ spans rest, span'.shift front.length = span := by
    intro span
    rw [h.spans_eq, List.mem_append, List.mem_map]
  constructor
  · intro hall
    refine ⟨fun span hspan hstart => ?_, fun span hspan _ hstop => ?_⟩
    · have hwhole := (hmem span).mpr (.inl hspan)
      have hnonempty := (segments_spans _).nonempty span hwhole
      have hstop := h.stop_le span hspan
      exact hall span hwhole hstart (by omega)
    · rw [← part_shift front rest span]
      apply hall _ ((hmem _).mpr (.inr ⟨span, hspan, rfl⟩))
      · simp only [Span.shift]
        omega
      · simp only [Span.shift]
        omega
  · rintro ⟨hpart, hrest⟩ span hspan hstart hstop
    rcases (hmem span).mp hspan with hfront | ⟨span', hspan', rfl⟩
    · exact hpart span hfront hstart
    · rw [part_shift]
      exact hrest span' hspan' (Nat.zero_le _) (Nat.lt_of_add_lt_add_right hstop)

end Seam

/-- A character of code keeps its place. -/
lemma codeOf_code (h : afterInert? c rest = none) : codeOf (c :: rest) = some c :: codeOf rest := by
  have hseam := seam_code h
  have hcode : isCodeAt ([c] ++ rest) 0 = true := by
    rw [isCodeAt, hseam.spans_eq, List.nil_append, List.all_map, List.all_eq_true]
    intro span _
    simp [Span.shift, Span.covers]
  have happend := hseam.codeOf_append
  rw [List.mapIdx_cons, List.mapIdx_nil, if_pos hcode] at happend
  exact happend

/-- A comment or quoted text leaves gaps. -/
lemma codeOf_inert (h : afterInert? c (inside ++ after) = some after) :
    codeOf (c :: inside ++ after) = List.replicate (c :: inside).length none ++ codeOf after := by
  have hseam := seam_inert h
  rw [hseam.codeOf_append]
  congr 1
  refine List.eq_replicate_iff.mpr ⟨List.length_mapIdx, ?_⟩
  intro mark hmark
  obtain ⟨position, hlt, rfl⟩ := List.mem_mapIdx.mp hmark
  have hinside : isCodeAt (c :: inside ++ after) position = false := by
    rw [isCodeAt, hseam.spans_eq, List.all_append, Bool.and_eq_false_iff]
    left
    simp only [List.all_cons, List.all_nil, Bool.and_true, Bool.not_eq_false', Span.covers_iff]
    exact ⟨Nat.zero_le _, hlt⟩
  rw [hinside, if_neg Bool.false_ne_true]

end Seams

/-! ## Counting -/

/-- The place where the closing parentheses first outnumber the opening ones by one more than `depth`.
Gaps do not count, and the place is none of them. -/
structure FirstExcess (depth : Nat) (marks : List (Option Char)) (n : Nat) : Prop where
  code : marks[n]? ≠ some none
  excess : (marks.take (n + 1)).count (some ')') = (marks.take (n + 1)).count (some '(') + (depth + 1)
  first : ∀ i < n, marks[i]? ≠ some none →
    (marks.take (i + 1)).count (some ')') ≠ (marks.take (i + 1)).count (some '(') + (depth + 1)

section Counting

variable {depth n : Nat} {mark : Option Char} {marks : List (Option Char)}

/-- Where there are no marks, none is in excess. -/
lemma not_firstExcess_nil : ¬ FirstExcess depth [] n := by
  intro h
  have hexcess := h.excess
  simp at hexcess

/-- **One mark.** Behind it the excess to be reached is larger by its opening parenthesis, or smaller
by its closing one, if it does not reach the excess itself. -/
lemma firstExcess_cons {depth' : Nat}
    (hdepth : depth + 1 + [mark].count (some '(') = depth' + 1 + [mark].count (some ')')) :
    FirstExcess depth (mark :: marks) n ↔ ∃ k, n = k + 1 ∧ FirstExcess depth' marks k := by
  have hcount : ∀ c i, ((mark :: marks).take (i + 1)).count c
      = [mark].count c + (marks.take i).count c := by
    intro c i
    rw [List.take_succ_cons, ← List.singleton_append, List.count_append]
  have hshort : ∀ c, (marks.take 0).count c = 0 := fun c => by rw [List.take_zero, List.count_nil]
  constructor
  · rintro ⟨hcode, hexcess, hfirst⟩
    rw [hcount, hcount] at hexcess
    cases n with
    | zero =>
      rw [hshort, hshort] at hexcess
      omega
    | succ k =>
      refine ⟨k, rfl, hcode, by omega, ?_⟩
      intro i hi hmark
      have hne := hfirst (i + 1) (Nat.succ_lt_succ hi) hmark
      rw [hcount, hcount] at hne
      omega
  · rintro ⟨k, rfl, hcode, hexcess, hfirst⟩
    refine ⟨hcode, ?_, ?_⟩
    · rw [hcount, hcount]
      omega
    · intro i hi hmark
      rw [hcount, hcount]
      cases i with
      | zero =>
        rw [hshort, hshort]
        omega
      | succ i =>
        have hne := hfirst i (Nat.lt_of_succ_lt_succ hi) hmark
        omega

/-- With nothing open, a closing parenthesis is in excess. -/
lemma firstExcess_close : FirstExcess 0 (some ')' :: marks) n ↔ n = 0 := by
  constructor
  · intro h
    by_contra hne
    exact h.first 0 (Nat.pos_of_ne_zero hne) (by simp) (by simp)
  · rintro rfl
    exact ⟨by simp, by simp, by simp⟩

/-- Positions that are no code do not count, they only move the first excess. -/
lemma firstExcess_replicate {length : Nat} :
    FirstExcess depth (List.replicate length none ++ marks) n ↔
      ∃ k, n = k + length ∧ FirstExcess depth marks k := by
  induction length generalizing n with
  | zero => simp
  | succ length ih =>
    rw [List.replicate_succ, List.cons_append, @firstExcess_cons depth _ none _ depth (by simp)]
    constructor
    · rintro ⟨_, rfl, hrest⟩
      obtain ⟨k, rfl, hk⟩ := ih.mp hrest
      exact ⟨k, rfl, hk⟩
    · rintro ⟨k, rfl, hk⟩
      exact ⟨k + length, rfl, ih.mpr ⟨k, rfl, hk⟩⟩

end Counting

/-! ## Agreement -/

/-- The position of the parenthesis that closes, with `depth` further ones open inside of it. -/
def closing? (depth : Nat) (text : List Char) : Option Nat :=
  (afterParen? depth text).map fun after => text.length - (after.length + 1)

section Agreement

variable {depth depth' n : Nat} {c : Char} {front inside rest after : List Char} {part : List Span}

/-- What stands in front moves the position. -/
lemma map_closing? (depth : Nat) (front rest : List Char) :
    ((afterParen? depth rest).map fun after => (front ++ rest).length - (after.length + 1))
      = (closing? depth rest).map (· + front.length) := by
  unfold closing?
  cases hafter : afterParen? depth rest with
  | none => rfl
  | some after =>
    have hlength := length_afterParen?_lt hafter
    simp only [Option.map_some, Option.some.injEq, List.length_append]
    omega

/-- **One step.** The search, the count and the closed spans go on behind the seam. -/
lemma closing?_step (hseam : Seam front rest part)
    (hskip : afterParen? depth (front ++ rest) = afterParen? depth' rest)
    (hcount : ∀ n, FirstExcess depth (codeOf (front ++ rest)) n ↔
      ∃ k, n = k + front.length ∧ FirstExcess depth' (codeOf rest) k)
    (hclosed : ∀ span ∈ part, Terminated (span.part (front ++ rest)))
    (hrest : ∀ k, closing? depth' rest = some k ↔
      FirstExcess depth' (codeOf rest) k ∧ TerminatedFrom rest 0 k) :
    closing? depth (front ++ rest) = some n ↔
      FirstExcess depth (codeOf (front ++ rest)) n ∧ TerminatedFrom (front ++ rest) 0 n := by
  have hterminated : ∀ k, TerminatedFrom (front ++ rest) 0 (k + front.length) ↔
      TerminatedFrom rest 0 k := by
    intro k
    rw [hseam.terminatedFrom_iff (Nat.zero_le _)]
    exact and_iff_right fun span hspan _ => hclosed span hspan
  rw [closing?, hskip, map_closing?, Option.map_eq_some_iff, hcount]
  constructor
  · rintro ⟨k, hk, rfl⟩
    obtain ⟨hexcess, hfrom⟩ := (hrest k).mp hk
    exact ⟨⟨k, rfl, hexcess⟩, (hterminated k).mpr hfrom⟩
  · rintro ⟨⟨k, rfl, hexcess⟩, hfrom⟩
    exact ⟨k, (hrest k).mpr ⟨hexcess, (hterminated k).mp hfrom⟩, rfl⟩

/-- The step over a character of code. -/
lemma closing?_code (hcode : afterInert? c rest = none)
    (hskip : afterParen? depth (c :: rest) = afterParen? depth' rest)
    (hdepth : depth + 1 + [some c].count (some '(') = depth' + 1 + [some c].count (some ')'))
    (hrest : ∀ k, closing? depth' rest = some k ↔
      FirstExcess depth' (codeOf rest) k ∧ TerminatedFrom rest 0 k) :
    closing? depth (c :: rest) = some n ↔
      FirstExcess depth (codeOf (c :: rest)) n ∧ TerminatedFrom (c :: rest) 0 n := by
  refine closing?_step (seam_code hcode) hskip ?_ (by simp) hrest
  intro n
  rw [List.singleton_append, codeOf_code hcode]
  exact firstExcess_cons hdepth

/-- The step over a comment or quoted text that is closed. -/
lemma closing?_inert (hcut : rest = inside ++ after) (hinert : afterInert? c rest = some after)
    (hskip : afterParen? depth (c :: rest) = afterParen? depth after)
    (hclosed : Terminated (c :: inside))
    (hrest : ∀ k, closing? depth after = some k ↔
      FirstExcess depth (codeOf after) k ∧ TerminatedFrom after 0 k) :
    closing? depth (c :: rest) = some n ↔
      FirstExcess depth (codeOf (c :: rest)) n ∧ TerminatedFrom (c :: rest) 0 n := by
  subst hcut
  refine closing?_step (seam_inert hinert) hskip ?_ ?_ hrest
  · intro n
    rw [codeOf_inert hinert]
    exact firstExcess_replicate
  · intro span hspan
    obtain rfl := List.mem_singleton.mp hspan
    rw [part_first]
    exact hclosed

/-- Quoted text that is not closed stops the search, and the spans show it. -/
lemma not_terminated_of_open {quote : Char} (hquote : isQuote quote = true)
    (hopen : afterQuoted? quote (inside ++ rest) = none) : ¬ Terminated (quote :: inside) := by
  intro h
  generalize hpiece : quote :: inside = piece at h
  cases h with
  | line =>
    obtain ⟨rfl, -⟩ := List.cons.inj hpiece
    exact absurd hquote (by decide)
  | block =>
    obtain ⟨rfl, -⟩ := List.cons.inj hpiece
    exact absurd hquote (by decide)
  | quoted _ hbody =>
    obtain ⟨rfl, rfl⟩ := List.cons.inj hpiece
    rw [List.append_assoc, List.singleton_append,
      (afterQuoted?_eq_some_iff hquote).mpr ⟨_, hbody, rfl⟩] at hopen
    simp at hopen

/-- **The search for a match agrees with the spans.** By its steps: it passes over what a span covers,
and gives up where a span is not closed. -/
lemma closing?_eq_some_iff (depth : Nat) (text : List Char) (n : Nat) :
    closing? depth text = some n ↔
      FirstExcess depth (codeOf text) n ∧ TerminatedFrom text 0 n := by
  fun_induction afterParen? depth text generalizing n with
  | case1 depth =>
    constructor
    · intro h
      simp [closing?, afterParen?] at h
    · intro h
      exact absurd h.1 not_firstExcess_nil
  | case2 depth rest ih =>
    exact closing?_code (by simp [afterInert?, isQuote, backtick]) (by rw [afterParen?]) (by simp) ih
  | case3 rest =>
    have hcode : afterInert? ')' rest = none := by simp [afterInert?, isQuote, backtick]
    have hzero : closing? 0 (')' :: rest) = some 0 := by
      rw [closing?, afterParen?, Option.map_some, List.length_cons, Nat.sub_self]
    rw [hzero, codeOf_code hcode, firstExcess_close, Option.some.injEq]
    constructor
    · rintro rfl
      exact ⟨rfl, fun span _ _ hstart => absurd hstart (Nat.not_lt_zero _)⟩
    · exact fun h => h.1.symm
  | case4 rest depth ih =>
    exact closing?_code (by simp [afterInert?, isQuote, backtick]) (by rw [afterParen?]) (by simp) ih
  | case5 depth line ih =>
    obtain ⟨body, hcut, -, -⟩ := exists_line line
    have hcut' : '/' :: line = '/' :: body ++ afterLine line := congrArg ('/' :: ·) hcut
    exact closing?_inert hcut' (by rw [afterInert?]) (by rw [afterParen?]) .line ih
  | case6 depth block after hafter ih =>
    obtain ⟨body, hbody, hcut⟩ := afterBlock?_eq_some_iff.mp hafter
    have hcut' : '*' :: block = '*' :: (body ++ ['*', '/']) ++ after := by simp [hcut]
    refine closing?_inert hcut' ?_ ?_ (.block hbody) ih
    · rw [afterInert?, afterBlock, hafter, Option.getD_some]
    · rw [afterParen?_block, hafter, Option.bind_some]
  | case7 depth block hafter =>
    have hinert : afterInert? '/' ('*' :: block ++ []) = some [] := by
      rw [List.append_nil, afterInert?, afterBlock, hafter, Option.getD_none]
    have hcode := codeOf_inert hinert
    rw [List.append_nil] at hcode
    constructor
    · intro h
      rw [closing?, afterParen?_block, hafter] at h
      simp at h
    · rintro ⟨hexcess, -⟩
      rw [hcode, firstExcess_replicate] at hexcess
      obtain ⟨k, -, hnil⟩ := hexcess
      exact absurd hnil not_firstExcess_nil
  | case8 depth c rest _ _ _ _ hquote after hafter ih =>
    obtain ⟨body, hbody, hcut⟩ := (afterQuoted?_eq_some_iff hquote).mp hafter
    have hcut' : rest = body ++ [c] ++ after := by simp [hcut]
    refine closing?_inert hcut' ?_ ?_ (.quoted hquote hbody) ih
    · rw [afterInert?_quote hquote, hafter, Option.getD_some]
    · rw [afterParen?_quote hquote, hafter, Option.bind_some]
  | case9 depth c rest _ _ _ _ hquote hafter =>
    obtain ⟨line, hcut, -, -⟩ := exists_line rest
    generalize hrest : afterLine rest = after at hcut
    have hinert : afterInert? c rest = some after := by
      rw [afterInert?_quote hquote, hafter, Option.getD_none, hrest]
    constructor
    · intro h
      rw [closing?, afterParen?_quote hquote, hafter] at h
      simp at h
    · rintro ⟨hexcess, hfrom⟩
      subst hcut
      have hcode : codeOf (c :: (line ++ after)) = _ := codeOf_inert hinert
      rw [hcode, firstExcess_replicate] at hexcess
      obtain ⟨k, rfl, -⟩ := hexcess
      have hpart := ((seam_inert hinert).terminatedFrom_iff (Nat.zero_le _) k).mp hfrom
      have hclosed := hpart.1 _ (List.mem_singleton_self _) (Nat.zero_le _)
      rw [part_first] at hclosed
      exact absurd hclosed (not_terminated_of_open hquote hafter)
  | case10 depth c rest hopen hclose hline hblock hquote ih =>
    have hdepth : depth + 1 + [some c].count (some '(') = depth + 1 + [some c].count (some ')') := by
      have hnone : ∀ x, (c = x → False) → [some c].count (some x) = 0 := by
        intro x hx
        exact List.count_eq_zero.mpr (by simpa using fun hc => hx hc.symm)
      rw [hnone _ hopen, hnone _ hclose]
    refine closing?_code ?_ ?_ hdepth ih
    · rw [afterInert?, if_neg hquote]
      · exact hline
      · exact hblock
    · rw [afterParen?, if_neg hquote]
      · exact hopen
      · exact hclose
      · exact hline
      · exact hblock

end Agreement

/-! ## A parenthesis in a text -/

/-- The position of the parenthesis that closes the one at a position. -/
def matchingParen? (text : List Char) (opening : Nat) : Option Nat :=
  (afterParen? 0 (text.drop (opening + 1))).map fun after => text.length - (after.length + 1)

/-- The position is the first one in code, behind an opening parenthesis, where the code from that
parenthesis on has as many closing as opening ones. -/
structure ClosesAt (text : List Char) (opening closing : Nat) : Prop where
  behind : opening < closing
  code : isCodeAt text closing = true
  balanced : codeCount text ')' opening (closing + 1) = codeCount text '(' opening (closing + 1)
  first : ∀ i, opening < i → i < closing → isCodeAt text i = true →
    codeCount text ')' opening (i + 1) ≠ codeCount text '(' opening (i + 1)

section Texts

variable {front rest : List Char} {part : List Span}

/-- A seam may be moved behind a character of code. -/
lemma Seam.snoc {c : Char} (h : Seam front (c :: rest) part) (hcode : afterInert? c rest = none) :
    Seam (front ++ [c]) rest part := by
  have hrest := (seam_code hcode).spans_eq
  rw [List.singleton_append, List.nil_append] at hrest
  refine ⟨fun span hspan => ?_, ?_⟩
  · rw [List.length_append]
    exact Nat.le_add_right_of_le (h.stop_le span hspan)
  · rw [List.append_assoc, List.singleton_append, h.spans_eq, hrest, List.map_map,
      List.length_append]
    congr 2
    funext span
    simp only [Function.comp_apply, Span.shift, Span.mk.injEq, List.length_singleton]
    omega

/-- What the code from an opening parenthesis on counts. -/
lemma codeCount_paren {i : Nat} (h : (codeOf (front ++ '(' :: rest)).drop front.length
      = some '(' :: codeOf rest) (c : Char) :
    codeCount (front ++ '(' :: rest) c front.length (i + (front.length + 1) + 1)
      = [some '('].count (some c) + ((codeOf rest).take (i + 1)).count (some c) := by
  have hwidth : i + (front.length + 1) + 1 - front.length = i + 1 + 1 := by omega
  rw [codeCount, h, hwidth, List.take_succ_cons, ← List.singleton_append, List.count_append]

/-- The balance of the code from an opening parenthesis on is an excess behind it. -/
lemma closesAt_iff {closing : Nat} (hseam : Seam (front ++ ['(']) rest part)
    (hdrop : (codeOf (front ++ '(' :: rest)).drop front.length = some '(' :: codeOf rest) :
    ClosesAt (front ++ '(' :: rest) front.length closing ↔
      ∃ k, closing = k + (front.length + 1) ∧ FirstExcess 0 (codeOf rest) k := by
  have hcode : ∀ i, isCodeAt (front ++ '(' :: rest) (i + (front.length + 1)) = true ↔
      (codeOf rest)[i]? ≠ some none := by
    intro i
    have hadd := hseam.isCodeAt_add i
    rw [List.append_assoc, List.singleton_append, List.length_append, List.length_singleton] at hadd
    rw [codeOf_ne_gap_iff, hadd]
  have hbalanced : ∀ i, codeCount (front ++ '(' :: rest) ')' front.length
        (i + (front.length + 1) + 1)
      = codeCount (front ++ '(' :: rest) '(' front.length (i + (front.length + 1) + 1) ↔
      ((codeOf rest).take (i + 1)).count (some ')')
        = ((codeOf rest).take (i + 1)).count (some '(') + (0 + 1) := by
    intro i
    have hclose : [some '('].count (some ')') = 0 := by decide
    have hopen : [some '('].count (some '(') = 1 := by decide
    rw [codeCount_paren hdrop, codeCount_paren hdrop, hclose, hopen]
    omega
  constructor
  · rintro ⟨hbehind, hclosing, hbalance, hfirst⟩
    obtain ⟨k, rfl⟩ := Nat.exists_eq_add_of_le' hbehind
    refine ⟨k, rfl, (hcode k).mp hclosing, (hbalanced k).mp hbalance, ?_⟩
    intro i hi hmark hexcess
    exact hfirst (i + (front.length + 1)) (by omega) (by omega) ((hcode i).mpr hmark)
      ((hbalanced i).mpr hexcess)
  · rintro ⟨k, rfl, hmark, hexcess, hfirst⟩
    refine ⟨by omega, (hcode k).mpr hmark, (hbalanced k).mpr hexcess, ?_⟩
    intro i hbehind hi hcodeAt hbalance
    obtain ⟨j, rfl⟩ := Nat.exists_eq_add_of_le' hbehind
    exact hfirst j (by omega) ((hcode j).mp hcodeAt) ((hbalanced j).mp hbalance)

/-- **A match is found exactly where the code is in balance,** if everything is closed up to there. -/
lemma matchingParen?_eq_some_iff {text : List Char} {opening closing : Nat}
    (hopen : text[opening]? = some '(') (hcode : isCodeAt text opening = true) :
    matchingParen? text opening = some closing ↔
      ClosesAt text opening closing ∧ TerminatedFrom text (opening + 1) closing := by
  obtain ⟨hlt, hparen⟩ := List.getElem?_eq_some_iff.mp hopen
  obtain ⟨front, rest, rfl, rfl⟩ : ∃ front rest, text = front ++ '(' :: rest ∧
      opening = front.length := by
    refine ⟨text.take opening, text.drop (opening + 1), ?_, ?_⟩
    · rw [← hparen, ← List.drop_eq_getElem_cons hlt, List.take_append_drop]
    · rw [List.length_take, Nat.min_eq_left (Nat.le_of_lt hlt)]
  obtain ⟨part, hat⟩ := exists_seam hcode
  have hplain : afterInert? '(' rest = none := by simp [afterInert?, isQuote, backtick]
  have hseam := hat.snoc hplain
  have hdrop : (codeOf (front ++ '(' :: rest)).drop front.length = some '(' :: codeOf rest := by
    rw [hat.drop_codeOf, codeOf_code hplain]
  have hlength : (front ++ ['(']).length = front.length + 1 := List.length_append
  have hsearch : matchingParen? (front ++ '(' :: rest) front.length
      = (closing? 0 rest).map (· + (front ++ ['(']).length) := by
    have hrest : (front ++ '(' :: rest).drop (front.length + 1) = rest := by
      rw [← List.drop_drop, List.drop_left, List.drop_one, List.tail_cons]
    rw [matchingParen?, hrest, ← map_closing?, List.append_assoc, List.singleton_append]
  have hterminated : ∀ k, TerminatedFrom (front ++ '(' :: rest) (front.length + 1)
      (k + (front.length + 1)) ↔ TerminatedFrom rest 0 k := by
    intro k
    have hiff := hseam.terminatedFrom_iff (Nat.le_of_eq hlength.symm) k
    rw [hlength, List.append_assoc, List.singleton_append] at hiff
    rw [hiff]
    refine and_iff_right fun span hspan hstart => ?_
    -- a span in front of the parenthesis does not start behind it
    have hmem : span ∈ spans (front ++ '(' :: rest) := by
      rw [hat.spans_eq]
      exact List.mem_append_left _ hspan
    have hnonempty := (segments_spans _).nonempty span hmem
    have hstop := hat.stop_le span hspan
    omega
  rw [hsearch, hlength, Option.map_eq_some_iff, closesAt_iff hseam hdrop]
  constructor
  · rintro ⟨k, hk, rfl⟩
    obtain ⟨hexcess, hfrom⟩ := (closing?_eq_some_iff 0 rest k).mp hk
    exact ⟨⟨k, rfl, hexcess⟩, (hterminated k).mpr hfrom⟩
  · rintro ⟨⟨k, rfl, hexcess⟩, hfrom⟩
    exact ⟨k, (closing?_eq_some_iff 0 rest k).mpr ⟨hexcess, (hterminated k).mp hfrom⟩, rfl⟩

end Texts

end CachedRoutes.Code
