/-!
# Comments, quoted text and blanks of source code

The scanner reads source text without parsing it. It knows comments (`//` to the end of the line,
`/*` to `*/`), quoted text (single quotes, double quotes, backticks, with backslash escapes) and
ASCII blanks. Every reader here takes the text after an opening mark and returns the text after the
closing one, so that what remains is always shorter than what was given.
-/

namespace CachedRoutes.Code

/-- Blanks between tokens: space, tab, line feed, carriage return and form feed. -/
def isSpace (c : Char) : Bool :=
  c == ' ' || c == '\t' || c == '\n' || c == '\r' || c == '\x0c'

/-- Characters of a name: ASCII letters and digits, `_` and `$`. -/
def isNameChar (c : Char) : Bool :=
  c.isAlphanum || c == '_' || c == '$'

/-- The quote that may hold several lines. -/
def backtick : Char := '\x60'

/-- Single quote, double quote or backtick. -/
def isQuote (c : Char) : Bool :=
  c == '\x27' || c == '\x22' || c == backtick

/-- What follows the rest of a line, from its line feed on. -/
def afterLine (text : List Char) : List Char :=
  text.dropWhile (· != '\n')

/-- What follows a block comment, given the text after its opening. -/
def afterBlock? : List Char → Option (List Char)
  | [] => none
  | '*' :: '/' :: rest => some rest
  | _ :: rest => afterBlock? rest

/-- What follows a quoted text, given the text after its opening quote. A backslash hides the next
character. A line feed ends the attempt, unless the quote is a backtick. -/
def afterQuoted? (quote : Char) : List Char → Option (List Char)
  | [] => none
  | ['\\'] => none
  | '\\' :: _ :: rest => afterQuoted? quote rest
  | c :: rest =>
    if c = '\n' && quote != backtick then none
    else if c = quote then some rest
    else afterQuoted? quote rest

theorem length_afterLine_le (text : List Char) : (afterLine text).length ≤ text.length :=
  (List.dropWhile_sublist _).length_le

theorem length_afterBlock?_lt {text rest : List Char} (h : afterBlock? text = some rest) :
    rest.length < text.length := by
  fun_induction afterBlock? text with
  | case1 => simp at h
  | case2 => simp at h; subst h; simp only [List.length_cons]; omega
  | case3 c text _ ih => have := ih h; simp only [List.length_cons]; omega

theorem length_afterQuoted?_lt {quote : Char} {text rest : List Char}
    (h : afterQuoted? quote text = some rest) : rest.length < text.length := by
  fun_induction afterQuoted? quote text with
  | case1 => simp at h
  | case2 => simp at h
  | case3 c text ih => have := ih h; simp only [List.length_cons]; omega
  | case4 => simp at h
  | case5 => simp at h; subst h; simp
  | case6 c text _ _ _ _ ih => have := ih h; simp only [List.length_cons]; omega

/-- What follows a block comment, given the text after its opening. An unfinished one reaches to the
end of the text. -/
def afterBlock (text : List Char) : List Char :=
  (afterBlock? text).getD []

theorem length_afterBlock_le (text : List Char) : (afterBlock text).length ≤ text.length := by
  unfold afterBlock
  cases h : afterBlock? text with
  | none => simp
  | some rest => exact Nat.le_of_lt (length_afterBlock?_lt h)

/-- The text without the blanks and comments at its start. -/
def skipTrivia (text : List Char) : List Char :=
  match text with
  | [] => []
  | '/' :: '/' :: line => skipTrivia (afterLine line)
  | '/' :: '*' :: block => skipTrivia (afterBlock block)
  | c :: rest => if isSpace c then skipTrivia rest else c :: rest
termination_by text.length
decreasing_by
  · have := length_afterLine_le line; simp only [List.length_cons]; omega
  · have := length_afterBlock_le block; simp only [List.length_cons]; omega
  · simp only [List.length_cons]; omega

theorem length_skipTrivia_le (text : List Char) : (skipTrivia text).length ≤ text.length := by
  fun_induction skipTrivia text with
  | case1 => simp
  | case2 line ih => have := length_afterLine_le line; simp only [List.length_cons]; omega
  | case3 block ih => have := length_afterBlock_le block; simp only [List.length_cons]; omega
  | case4 c rest _ _ _ ih => simp only [List.length_cons]; omega
  | case5 => simp

end CachedRoutes.Code
