import CachedRoutes.Proofs.Code.Span
import CachedRoutes.Proofs.Query.Match
import Mathlib.Data.Option.Basic

/-!
# Text in front of a query

Queries are found by going through the whole text, so what stands in front of a query could decide
whether it is found. Here are the conditions under which it does not, except for the positions.

* **Spans.** Where no comment and no quoted text goes across a seam, the text behind the seam has the
  spans that it has alone (`Code.spans_append`).
* **Heads.** `headsFrom_append`: where no head starts in front of a seam, the search arrives at it.
* **Queries.** `Precedes` has both conditions, and `Precedes.findAll_append`: the queries are those
  of the text behind the seam.
-/

namespace CachedRoutes.Query

/-! ## Heads -/

/-- The head in a text that starts `k` characters earlier. -/
def Head.shift (k : Nat) (head : Head) : Head :=
  { head with
    start := head.start + k, awaitAt := head.awaitAt + k, clientAt := head.clientAt + k }

/-- A head that is moved stops further on. -/
lemma Head.stop_shift (k : Nat) (head : Head) : (head.shift k).stop = head.stop + k := by
  simp only [Head.stop, Head.shift]
  omega

/-- A head that starts further on is a head that is moved. -/
lemma head?_add (clients : List (List Char)) (before : Option Char) (start k : Nat)
    (text : List Char) :
    head? clients before (start + k) text = (head? clients before start text).map (Head.shift k) := by
  unfold head?
  simp only [Option.map_bind, Function.comp_def, Option.bind_eq_bind]
  refine congrArg _ (funext fun _ => ?_)
  refine congrArg _ (funext fun declared => ?_)
  refine congrArg _ (funext fun bound => ?_)
  refine congrArg _ (funext fun awaited => ?_)
  refine congrArg _ (funext fun fetched => ?_)
  refine congrArg _ (funext fun found => ?_)
  simp only [Option.pure_def, Option.map_some, Head.shift, Option.some.injEq, Head.mk.injEq]
  refine ⟨trivial, trivial, ?_, ?_, trivial⟩ <;> omega

/-- The character in front counts only where it makes a difference for the first word. -/
lemma headsFrom_congr_before {clients : List (List Char)} {before before' : Option Char}
    {start : Nat} {text : List Char}
    (h : Text.isBoundary before text.head? = Text.isBoundary before' text.head?) :
    headsFrom clients before start text = headsFrom clients before' start text := by
  cases text with
  | nil => simp [headsFrom]
  | cons c rest =>
    have hhead : head? clients before start (c :: rest) = head? clients before' start (c :: rest) := by
      unfold head?
      rw [h]
    rw [headsFrom, headsFrom, hhead]

/-- The position of the first character is all that the heads take from what is in front. -/
lemma headsFrom_add (clients : List (List Char)) (before : Option Char) (start k : Nat)
    (text : List Char) :
    headsFrom clients before (start + k) text
      = (headsFrom clients before start text).map (Head.shift k) := by
  fun_induction headsFrom clients before start text with
  | case1 => simp [headsFrom]
  | case2 before start c rest head hhead width ih =>
    have hwidth : (head.shift k).stop - (start + k) - 1 = width := by
      rw [Head.stop_shift]
      omega
    have hnext : start + k + width + 1 = start + width + 1 + k := by omega
    rw [headsFrom, head?_add, hhead]
    simp only [Option.map_some, hwidth, hnext, ih, List.map_cons]
  | case3 before start c rest hnone ih =>
    have hnext : start + k + 1 = start + 1 + k := by omega
    rw [headsFrom, head?_add, hnone]
    simp only [Option.map_none, hnext, ih]

/-- Where no head starts in front of the seam of two texts, the search arrives at the seam. -/
lemma headsFrom_append {clients : List (List Char)} {before : Option Char} {start : Nat}
    {left right : List Char}
    (h : ∀ head ∈ headsFrom clients before start (left ++ right), start + left.length ≤ head.start) :
    headsFrom clients before start (left ++ right)
      = headsFrom clients (left.getLast?.or before) (start + left.length) right := by
  induction left generalizing before start with
  | nil => rfl
  | cons c left ih =>
    rw [List.cons_append, headsFrom] at h ⊢
    cases hhead : head? clients before start (c :: (left ++ right)) with
    | some head =>
      rw [hhead] at h
      have hstart : head.start = start := by
        obtain ⟨-, -, -, -, hstart, -⟩ := head?_eq_some hhead
        exact hstart
      have hle := h head List.mem_cons_self
      rw [hstart, List.length_cons] at hle
      omega
    | none =>
      rw [hhead] at h
      dsimp only at h ⊢
      have hseam : start + (c :: left).length = start + 1 + left.length := by
        rw [List.length_cons]
        omega
      have hlast : (c :: left).getLast?.or before = left.getLast?.or (some c) := by
        rw [List.getLast?_cons]
        cases left.getLast? <;> rfl
      rw [hseam, hlast]
      exact ih (fun head hmem => hseam ▸ h head hmem)

/-! ## Queries -/

/-- The query in a text that starts `k` characters earlier. -/
def shift (k : Nat) (query : Query) : Query :=
  { query with
    awaitAt := query.awaitAt + k, exprAt := query.exprAt + k, stop := query.stop + k }

/-- The text in front of a seam leaves the text behind it alone. -/
structure Precedes (wrapping : Settings.Wrapping) (earlier later : List Char) : Prop where
  /-- No comment and no quoted text goes across the seam. -/
  no_span : ∀ span ∈ Code.spans (earlier ++ later),
    span.stop ≤ earlier.length ∨ earlier.length ≤ span.start
  /-- No head starts in front of it. -/
  no_head : ∀ head ∈ heads (wrapping.clients.map String.toList) (earlier ++ later),
    earlier.length ≤ head.start
  /-- No word goes across it. -/
  no_word : Text.isBoundary earlier.getLast? later.head? = Text.isBoundary none later.head?

/-- A head behind a seam is judged as in the text behind the seam. -/
lemma judge_append {earlier later : List Char} {front : List Code.Span}
    (hfront : ∀ span ∈ front, span.stop ≤ earlier.length) (inert : List Code.Span) (head : Head) :
    (judge (earlier ++ later) (front ++ inert.map (Code.Span.shift earlier.length))
        (head.shift earlier.length)).query?
      = (judge later inert head).query?.map (shift earlier.length) := by
  have hany : (front ++ inert.map (Code.Span.shift earlier.length)).any
      (fun span => span.covers (head.shift earlier.length).start)
        = inert.any fun span => span.covers head.start := by
    have hnone : front.any (fun span => span.covers (head.start + earlier.length)) = false := by
      rw [List.any_eq_false]
      intro span hspan hcovers
      have hstop := hfront span hspan
      simp only [Code.Span.covers, Bool.and_eq_true, decide_eq_true_eq] at hcovers
      omega
    rw [List.any_append, List.any_map]
    simp only [Head.shift, hnone, Bool.false_or, Function.comp_def, Code.Span.covers_shift]
  have hdrop : (earlier ++ later).drop (head.shift earlier.length).stop = later.drop head.stop := by
    rw [Head.stop_shift, Nat.add_comm, List.drop_length_add_append]
  have hbindings : (head.shift earlier.length).bindings = head.bindings := rfl
  have hclient : (head.shift earlier.length).client = head.client := rfl
  unfold judge
  rw [hany, hdrop, hbindings, hclient]
  split
  · rfl
  split
  · rfl
  cases hchain : Code.chain? (later.drop head.stop) with
  | none => rfl
  | some found =>
    obtain ⟨methods, rest⟩ := found
    dsimp only
    cases shape? (String.ofList head.client) methods with
    | none => rfl
    | some shape =>
      dsimp only
      split
      · obtain ⟨calls, -, hcalls, -⟩ := Code.chain?_ends hchain
        have hrest : rest.length ≤ later.length := by
          have hle := (List.drop_suffix head.stop later).length_le
          rw [hcalls] at hle
          simp only [List.length_append, List.length_cons] at hle
          omega
        have hstop : (earlier ++ later).length - rest.length
            = later.length - rest.length + earlier.length := by
          rw [List.length_append]
          omega
        rw [hstop]
        rfl
      · rfl

/-- **What stands in front of a seam does not matter.** The queries are those of the text behind it,
at their new positions. -/
lemma Precedes.findAll_append {wrapping : Settings.Wrapping} {earlier later : List Char}
    (h : Precedes wrapping earlier later) :
    findAll wrapping (earlier ++ later)
      = (findAll wrapping later).map (shift earlier.length) := by
  have hheads : heads (wrapping.clients.map String.toList) (earlier ++ later)
      = (heads (wrapping.clients.map String.toList) later).map (Head.shift earlier.length) := by
    have hahead : ∀ head ∈ headsFrom (wrapping.clients.map String.toList) none 0 (earlier ++ later),
        0 + earlier.length ≤ head.start := by
      intro head hmem
      rw [Nat.zero_add]
      exact h.no_head head hmem
    unfold heads
    rw [headsFrom_append hahead, ← headsFrom_add]
    refine headsFrom_congr_before ?_
    rw [Option.or_none]
    exact h.no_word
  obtain ⟨front, hfront, hinert⟩ := Code.spans_append h.no_span
  unfold findAll candidates
  rw [hheads, hinert, List.map_map, List.filterMap_map, List.filterMap_map, List.map_filterMap]
  refine List.filterMap_congr fun head _ => ?_
  exact judge_append hfront (Code.spans later) head

/-- The arguments of a query do not depend on the text in front of it. -/
lemma arguments_append (earlier later : List Char) (query : Query) :
    arguments (earlier ++ later) (query.shift earlier.length) = arguments later query := by
  unfold arguments shift
  dsimp only
  rw [Nat.add_comm query.stop, List.take_length_add_append, Nat.add_right_comm,
    Nat.add_comm _ earlier.length, List.drop_length_add_append]

end CachedRoutes.Query
