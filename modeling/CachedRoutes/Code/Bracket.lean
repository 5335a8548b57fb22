import CachedRoutes.Code.Trivia

/-!
# Matching brackets

Where does the bracket close that was just opened? Brackets inside quoted text do not count. For
parentheses, those inside comments do not count either, and quoted text or a block comment that is
never closed leaves the parenthesis without a match.
-/

namespace CachedRoutes.Code

/-- What follows the `)` that closes a parenthesis, given the text after it, with `depth` further
parentheses open inside of it. -/
def afterParen? (depth : Nat) (text : List Char) : Option (List Char) :=
  match text with
  | [] => none
  | '(' :: rest => afterParen? (depth + 1) rest
  | ')' :: rest =>
    match depth with
    | 0 => some rest
    | depth + 1 => afterParen? depth rest
  | '/' :: '/' :: rest => afterParen? depth (afterLine rest)
  | '/' :: '*' :: rest =>
    match _closes : afterBlock? rest with
    | some after => afterParen? depth after
    | none => none
  | c :: rest =>
    if isQuote c then
      match _closes : afterQuoted? c rest with
      | some after => afterParen? depth after
      | none => none
    else afterParen? depth rest
termination_by text.length
decreasing_by
  · simp only [List.length_cons]; omega
  · simp only [List.length_cons]; omega
  · have := length_afterLine_le rest; simp only [List.length_cons]; omega
  · have := length_afterBlock?_lt _closes; simp only [List.length_cons]; omega
  · have := length_afterQuoted?_lt _closes; simp only [List.length_cons]; omega
  · simp only [List.length_cons]; omega

/-- What follows the brace that closes an interpolation, given the text after its opening brace,
with `depth` further braces open inside of it. -/
def afterBrace? (depth : Nat) (text : List Char) : Option (List Char) :=
  match text with
  | [] => none
  | '\x7b' :: rest => afterBrace? (depth + 1) rest
  | '\x7d' :: rest =>
    match depth with
    | 0 => some rest
    | depth + 1 => afterBrace? depth rest
  | c :: rest =>
    if isQuote c then
      match _closes : afterQuoted? c rest with
      | some after => afterBrace? depth after
      | none => none
    else afterBrace? depth rest
termination_by text.length
decreasing_by
  · simp only [List.length_cons]; omega
  · simp only [List.length_cons]; omega
  · have := length_afterQuoted?_lt _closes; simp only [List.length_cons]; omega
  · simp only [List.length_cons]; omega

theorem length_afterParen?_lt {depth : Nat} {text rest : List Char}
    (h : afterParen? depth text = some rest) : rest.length < text.length := by
  fun_induction afterParen? depth text with
  | case1 => simp at h
  | case2 depth text ih => have := ih h; simp only [List.length_cons]; omega
  | case3 text => simp at h; subst h; simp
  | case4 text depth ih => have := ih h; simp only [List.length_cons]; omega
  | case5 depth text ih =>
    have := ih h
    have := length_afterLine_le text
    simp only [List.length_cons]; omega
  | case6 depth text after ha ih =>
    have := ih h
    have := length_afterBlock?_lt ha
    simp only [List.length_cons]; omega
  | case7 => simp at h
  | case8 depth c text _ _ _ _ _ after ha ih =>
    have := ih h
    have := length_afterQuoted?_lt ha
    simp only [List.length_cons]; omega
  | case9 => simp at h
  | case10 depth c text _ _ _ _ _ ih => have := ih h; simp only [List.length_cons]; omega

theorem length_afterBrace?_lt {depth : Nat} {text rest : List Char}
    (h : afterBrace? depth text = some rest) : rest.length < text.length := by
  fun_induction afterBrace? depth text with
  | case1 => simp at h
  | case2 depth text ih => have := ih h; simp only [List.length_cons]; omega
  | case3 text => simp at h; subst h; simp
  | case4 text depth ih => have := ih h; simp only [List.length_cons]; omega
  | case5 depth c text _ _ _ after ha ih =>
    have := ih h
    have := length_afterQuoted?_lt ha
    simp only [List.length_cons]; omega
  | case6 => simp at h
  | case7 depth c text _ _ _ ih => have := ih h; simp only [List.length_cons]; omega

end CachedRoutes.Code
