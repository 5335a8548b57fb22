import CachedRoutes.Proofs.Code.Token
import CachedRoutes.Proofs.Text.Lines
import Mathlib.Data.Option.Basic

/-!
# Values of literals

A text that is written into source code as a literal has a value when the code runs. This module
gives the values of quoted texts and of templates, on their own, so that what is written can be
compared with what it means.

* **Quoted texts** (`quoted?`): a backslash stands for a character together with the one behind it,
  and a line does not end inside of the quotes.
* **Templates** (`template?`): characters, with one line feed for every end of a line, and the code of
  interpolations.
* **Values** (`literalValue?`): the value of a text that is one literal. The interpolations are reads
  of members of an object (`memberValue?`); any other code has no value here, and neither have escapes
  that give a character by its number or continue a line.
-/

namespace CachedRoutes.Code

/-! ## Characters -/

/-- What a character behind a backslash stands for. -/
def escaped? (c : Char) : Option Char :=
  if isLineEnd c || c.isDigit || c == 'x' || c == 'u' then none
  else if c = 'n' then some '\n'
  else if c = 't' then some '\t'
  else if c = 'r' then some '\r'
  else if c = 'b' then some '\x08'
  else if c = 'f' then some '\x0c'
  else if c = 'v' then some '\x0b'
  else some c

/-- The text with a line feed for every end of a line by a carriage return. -/
def lineFeeds : List Char → List Char
  | [] => []
  | c :: rest =>
    if c = '\r' then if rest.head? = some '\n' then lineFeeds rest else '\n' :: lineFeeds rest
    else c :: lineFeeds rest

/-- Is the text a name of any script? -/
def isIdentifierName (text : List Char) : Bool :=
  !text.isEmpty && text.all isIdentifierChar && !(text.head?.any Char.isDigit)

/-! ## Literals -/

/-- The value of a quoted text, and what follows it, given the text after its opening quote. -/
def quoted? (quote : Char) : List Char → Option (List Char × List Char)
  | [] => none
  | ['\\'] => none
  | '\\' :: c :: rest => do
    let e ← escaped? c
    let (value, after) ← quoted? quote rest
    return (e :: value, after)
  | c :: rest =>
    if c = quote then some ([], rest)
    else if c = '\n' || c = '\r' then none
    else (quoted? quote rest).map fun (value, after) => (c :: value, after)

/-- What a template is made of. -/
inductive Part where
  | char (c : Char)
  /-- The code between the braces of an interpolation. -/
  | code (text : List Char)
  deriving DecidableEq, Repr

/-- The parts of a template, and what follows it, given the text after its opening backtick. -/
def template? (text : List Char) : Option (List Part × List Char) :=
  match text with
  | [] => none
  | ['\\'] => none
  | '\\' :: c :: rest => do
    let e ← escaped? c
    let (parts, after) ← template? rest
    return (.char e :: parts, after)
  | '$' :: '\x7b' :: rest =>
    match _closes : rest.dropWhile (· != '\x7d') with
    | [] => none
    | _ :: behind => do
      let (parts, after) ← template? behind
      return (.code (rest.takeWhile (· != '\x7d')) :: parts, after)
  | c :: rest =>
    if c = backtick then some ([], rest)
    else if c = '\r' && rest.head? = some '\n' then template? rest
    else (template? rest).map fun (parts, after) =>
      (.char (if c = '\r' then '\n' else c) :: parts, after)
termination_by text.length
decreasing_by
  · simp only [List.length_cons]; omega
  · have h := (List.dropWhile_sublist (· != '\x7d') (l := rest)).length_le
    rw [_closes] at h
    simp only [List.length_cons] at h ⊢
    omega
  · simp only [List.length_cons]; omega
  · simp only [List.length_cons]; omega

/-! ## Values -/

/-- The value of code that reads a member of an object, given the values of the members. -/
def memberValue? (holder : List Char) (members : List Char → List Char) (code : List Char) :
    Option (List Char) := do
  let name ← Text.after? (holder ++ ['.']) code
  guard (isIdentifierName name)
  return members name

/-- The value of the parts of a template, given the values of code. -/
def templateValue? (run : List Char → Option (List Char)) : List Part → Option (List Char)
  | [] => some []
  | .char c :: parts => (templateValue? run parts).map (c :: ·)
  | .code text :: parts => do
    let value ← run text
    let rest ← templateValue? run parts
    return value ++ rest

/-- The value of a text that is one literal, given the values of code. -/
def literalValue? (run : List Char → Option (List Char)) : List Char → Option (List Char)
  | [] => none
  | quote :: rest =>
    if quote = backtick then
      match template? rest with
      | some (parts, []) => templateValue? run parts
      | _ => none
    else if isQuote quote then
      match quoted? quote rest with
      | some (value, []) => some value
      | _ => none
    else none

/-! ## Parts of templates, one after the other -/

section Steps

variable {rest after : List Char} {parts : List Part}

/-- A backtick closes the template. -/
lemma template?_close : template? (backtick :: rest) = some ([], rest) := by
  rw [template?]
  · rw [if_pos rfl]
  · rintro h
    exact absurd h (by decide)
  · rintro c tail h
    exact absurd h (by decide)
  · rintro tail h
    exact absurd h (by decide)

/-- A character behind a backslash stands for what it escapes. -/
lemma template?_escape {c e : Char} (he : escaped? c = some e)
    (h : template? rest = some (parts, after)) :
    template? ('\\' :: c :: rest) = some (.char e :: parts, after) := by
  rw [template?, he, h]
  rfl

/-- An interpolation is read up to the first brace that closes. -/
lemma template?_code {code : List Char} (hcode : '\x7d' ∉ code)
    (h : template? rest = some (parts, after)) :
    template? ('$' :: '\x7b' :: (code ++ '\x7d' :: rest)) = some (.code code :: parts, after) := by
  have hall : ∀ c ∈ code, (c != '\x7d') = true := by
    intro c hc
    rw [bne_iff_ne]
    rintro rfl
    exact hcode hc
  have hdrop : (code ++ '\x7d' :: rest).dropWhile (· != '\x7d') = '\x7d' :: rest := by
    rw [List.dropWhile_append_of_pos hall, List.dropWhile_cons_of_neg (by simp)]
  have htake : (code ++ '\x7d' :: rest).takeWhile (· != '\x7d') = code := by
    rw [List.takeWhile_append_of_pos hall, List.takeWhile_cons_of_neg (by simp), List.append_nil]
  rw [template?]
  split
  · rename_i hnil
    rw [hdrop] at hnil
    simp at hnil
  · rename_i closing behind hbehind
    rw [hdrop] at hbehind
    obtain ⟨-, rfl⟩ := List.cons.inj hbehind
    rw [htake, h]
    rfl

/-- A character that opens and closes nothing. -/
lemma template?_char {c : Char} (hquote : c ≠ backtick) (hescape : c ≠ '\\')
    (hopen : c = '$' → rest.head? ≠ some '\x7b') (hreturn : c ≠ '\r')
    (h : template? rest = some (parts, after)) :
    template? (c :: rest) = some (.char c :: parts, after) := by
  rw [template?]
  · rw [if_neg hquote, if_neg (by simp [hreturn]), if_neg hreturn, h]
    rfl
  · rintro rfl
    exact absurd rfl hescape
  · rintro e tail rfl
    exact absurd rfl hescape
  · rintro tail rfl rfl
    exact absurd rfl (hopen rfl)

/-- A carriage return ends a line, together with a line feed behind it. -/
lemma template?_return (h : template? rest = some (parts, after)) :
    template? ('\r' :: rest)
      = some (if rest.head? = some '\n' then parts else .char '\n' :: parts, after) := by
  rw [template?]
  · rw [if_neg (by decide), if_pos rfl, h]
    by_cases hfeed : rest.head? = some '\n'
    · simp [hfeed]
    · simp [hfeed]
  · rintro hc
    exact absurd hc (by decide)
  · rintro e tail hc
    exact absurd hc (by decide)
  · rintro tail hc
    exact absurd hc (by decide)

end Steps

/-! ## Values of parts -/

/-- Characters in front of other parts stand in front of their value. -/
lemma templateValue?_chars (run : List Char → Option (List Char)) (text : List Char)
    (parts : List Part) :
    templateValue? run (text.map .char ++ parts) = (templateValue? run parts).map (text ++ ·) := by
  induction text with
  | nil => simp
  | cons c text ih =>
    rw [List.map_cons, List.cons_append, templateValue?, ih, Option.map_map]
    rfl

/-- A member has its value wherever it is read. -/
lemma memberValue?_member {holder name : List Char} (members : List Char → List Char)
    (hname : isIdentifierName name = true) :
    memberValue? holder members (holder ++ '.' :: name) = some (members name) := by
  have hafter : Text.after? (holder ++ ['.']) (holder ++ '.' :: name) = some name := by
    rw [Text.after?_eq_some_iff]
    simp
  unfold memberValue?
  rw [hafter]
  simp [hname]

end CachedRoutes.Code
