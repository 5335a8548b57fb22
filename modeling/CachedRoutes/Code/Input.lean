import CachedRoutes.Code.Bracket
import CachedRoutes.Text.Basic

/-!
# Request input in an expression

Data may be cached under a key only if everything the expression depends on is in the key. This
module looks for the first name in an expression whose value can differ from request to request.
Member names, object keys, literals and the route's own parameters are fixed for a given key;
every other name is not. Templates are read with their interpolations, at any depth.
-/

namespace CachedRoutes.Code

/-- What stands in front of a token, as far as it decides what a name means there. -/
inductive Context where
  /-- A single dot: the name is a member. -/
  | member
  /-- An opening brace or a comma: the name may be an object key. -/
  | entry
  /-- Anything else, or nothing. -/
  | plain
  deriving DecidableEq, Repr

/-- The route parameters that a cache key holds, and the name they are read from. -/
structure KeyedInput where
  /-- The name of the object that holds the parameters. -/
  holder : List Char
  /-- The names of the parameters. -/
  parameters : List (List Char)

/-- Names that are values. -/
def literalNames : List (List Char) :=
  ["true".toList, "false".toList, "null".toList, "undefined".toList]

/-- Characters of a number token after its first digit. -/
def isNumberChar (c : Char) : Bool :=
  c.isAlphanum || c == '.' || c == '_'

/-- The context after a number token: one that ends in a single dot makes a member of what
follows. -/
def Context.afterNumber (number : List Char) : Context :=
  match number.reverse with
  | '.' :: '.' :: _ => .plain
  | '.' :: _ => .member
  | _ => .plain

/-- The context after a run of dots, given what follows its first dot and the whole run. -/
def Context.afterDots (afterFirst afterRun : List Char) : Context :=
  if afterRun.length = afterFirst.length then .member else .plain

/-- The context after a punctuation character that is not a dot. -/
def Context.afterMark (c : Char) : Context :=
  if c == '\x7b' || c == ',' then .entry else .plain

/-- The code of an interpolation, given the text after its opening brace and the text after its
closing one. -/
def interpolated (inner after : List Char) : List Char :=
  inner.take (inner.length - after.length - 1)

mutual

/-- The first name in the code that can differ between requests. For a read of an unknown
parameter it is the whole read, as written. -/
def requestInput? (known : KeyedInput) (context : Context) (text : List Char) :
    Option (List Char) :=
  match text with
  | [] => none
  | '/' :: '/' :: line => requestInput? known context (afterLine line)
  | '/' :: '*' :: block => requestInput? known context (afterBlock block)
  | c :: rest =>
    if isSpace c then requestInput? known context rest
    else if c = backtick then templateInput? known rest
    else if isQuote c then
      match _closes : afterQuoted? c rest with
      | some after => requestInput? known .plain after
      | none => none
    else if c.isDigit then
      requestInput? known (.afterNumber (c :: rest.takeWhile isNumberChar))
        (rest.dropWhile isNumberChar)
    else if isNameChar c then
      let name := c :: rest.takeWhile isNameChar
      let after := rest.dropWhile isNameChar
      let next := skipTrivia after
      if context = .member || (context = .entry && next.head? == some ':')
          || literalNames.contains name then
        requestInput? known .plain after
      else if name = known.holder && next.head? == some '.' then
        let segment := skipTrivia (next.drop 1)
        let behind := segment.dropWhile isNameChar
        if known.parameters.contains (segment.takeWhile isNameChar) then
          requestInput? known .plain behind
        else some (Text.upTo (c :: rest) behind)
      else some name
    else if c = '.' then
      let run := rest.dropWhile (· == '.')
      requestInput? known (.afterDots rest run) run
    else requestInput? known (.afterMark c) rest
termination_by text.length
decreasing_by
  · have := length_afterLine_le line; simp only [List.length_cons]; omega
  · have := length_afterBlock_le block; simp only [List.length_cons]; omega
  · simp only [List.length_cons]; omega
  · simp only [List.length_cons]; omega
  · have := length_afterQuoted?_lt _closes; simp only [List.length_cons]; omega
  · have := (List.dropWhile_sublist isNumberChar (l := rest)).length_le
    simp only [List.length_cons]; omega
  · have := (List.dropWhile_sublist isNameChar (l := rest)).length_le
    simp only [List.length_cons]; omega
  · have h₁ := (List.dropWhile_sublist isNameChar (l := rest)).length_le
    have h₂ : next.length ≤ (rest.dropWhile isNameChar).length := length_skipTrivia_le _
    have h₃ : segment.length ≤ (next.drop 1).length := length_skipTrivia_le _
    have h₄ : behind.length ≤ segment.length := (List.dropWhile_sublist isNameChar).length_le
    rw [List.length_drop] at h₃
    exact Nat.lt_succ_of_le (show behind.length ≤ rest.length by omega)
  · have := (List.dropWhile_sublist (· == '.') (l := rest)).length_le
    simp only [List.length_cons]; omega
  · simp only [List.length_cons]; omega

/-- The same, from inside a template on, given the text after its opening backtick. -/
def templateInput? (known : KeyedInput) (text : List Char) : Option (List Char) :=
  match text with
  | [] => none
  | '\\' :: _ :: after => templateInput? known after
  | '$' :: '\x7b' :: inner =>
    match _closes : afterBrace? 0 inner with
    | some after =>
      match requestInput? known .plain (interpolated inner after) with
      | some found => some found
      | none => templateInput? known after
    | none => requestInput? known .plain inner
  | c :: rest =>
    if c = backtick then requestInput? known .plain rest else templateInput? known rest
termination_by text.length
decreasing_by
  · simp only [List.length_cons]; omega
  · simp only [interpolated, List.length_take, List.length_cons]; omega
  · have := length_afterBrace?_lt _closes; simp only [List.length_cons]; omega
  · simp only [List.length_cons]; omega
  · simp only [List.length_cons]; omega
  · simp only [List.length_cons]; omega

end

end CachedRoutes.Code
