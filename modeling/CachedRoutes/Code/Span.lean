import CachedRoutes.Code.Trivia

/-!
# Spans that are not code

Read from left to right, a source text falls into code, comments and quoted texts. A span is a
stretch of the last two kinds, by character positions. Quoted text that is not closed ends with its
line.
-/

namespace CachedRoutes.Code

/-- A stretch of text: the characters from `start` up to, and without, `stop`. -/
structure Span where
  /-- Position of the first character. -/
  start : Nat
  /-- Position after the last character. -/
  stop : Nat
  deriving DecidableEq, Repr

/-- Does the position lie in the span? -/
def Span.covers (span : Span) (position : Nat) : Bool :=
  span.start ≤ position && position < span.stop

/-- What follows the comment or quoted text that starts with `c`, if one does. -/
def afterInert? (c : Char) (rest : List Char) : Option (List Char) :=
  match c, rest with
  | '/', '/' :: line => some (afterLine line)
  | '/', '*' :: block => some (afterBlock block)
  | _, _ => if isQuote c then some ((afterQuoted? c rest).getD (afterLine rest)) else none

theorem length_afterInert?_le {c : Char} {rest after : List Char}
    (h : afterInert? c rest = some after) : after.length ≤ rest.length := by
  unfold afterInert? at h
  split at h
  · obtain rfl := Option.some.inj h
    have := length_afterLine_le ‹_›
    simp only [List.length_cons]; omega
  · obtain rfl := Option.some.inj h
    have := length_afterBlock_le ‹_›
    simp only [List.length_cons]; omega
  · split at h
    · obtain rfl := Option.some.inj h
      cases hq : afterQuoted? c rest with
      | none => exact length_afterLine_le rest
      | some after => exact Nat.le_of_lt (length_afterQuoted?_lt hq)
    · simp at h

/-- The spans of a text that starts at position `start`. -/
def spansFrom (start : Nat) (text : List Char) : List Span :=
  match text with
  | [] => []
  | c :: rest =>
    match _inert : afterInert? c rest with
    | some after =>
      let stop := start + (rest.length + 1 - after.length)
      ⟨start, stop⟩ :: spansFrom stop after
    | none => spansFrom (start + 1) rest
termination_by text.length
decreasing_by
  · have := length_afterInert?_le _inert; simp only [List.length_cons]; omega
  · simp only [List.length_cons]; omega

/-- The comments and quoted texts of a source text, in order. -/
def spans (text : List Char) : List Span :=
  spansFrom 0 text

end CachedRoutes.Code
