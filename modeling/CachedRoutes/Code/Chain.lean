import CachedRoutes.Code.Bracket

/-!
# Call chains

A chain is one or more calls `.name(…)` after each other, with blanks and comments allowed before
the dot, before the name and before the parenthesis. It ends after the `)` of the last call.
-/

namespace CachedRoutes.Code

/-- The calls at the start of a text, by their names, and what follows the last of them. The text
before the first call is left alone; a dot that no call follows spoils the whole chain. -/
def calls? (text : List Char) : Option (List String × List Char) :=
  match _dot : skipTrivia text with
  | '.' :: dotted =>
    let named := skipTrivia dotted
    let name := named.takeWhile isNameChar
    if name.isEmpty then none
    else
      match _open : skipTrivia (named.dropWhile isNameChar) with
      | '(' :: arguments =>
        match _close : afterParen? 0 arguments with
        | some after =>
          match calls? after with
          | some (names, rest) => some (String.ofList name :: names, rest)
          | none => none
        | none => none
      | _ => none
  | _ => some ([], text)
termination_by text.length
decreasing_by
  have h₁ := length_skipTrivia_le text
  have h₂ : named.length ≤ dotted.length := length_skipTrivia_le dotted
  have h₃ := length_skipTrivia_le (named.dropWhile isNameChar)
  have h₄ := (List.dropWhile_sublist isNameChar (l := named)).length_le
  have h₅ := length_afterParen?_lt _close
  rw [_dot] at h₁
  rw [_open] at h₃
  simp only [List.length_cons] at h₁ h₃
  omega

/-- The chain at the start of a text: its method names, and what follows its last call. -/
def chain? (text : List Char) : Option (List String × List Char) :=
  match calls? text with
  | some ([], _) => none
  | other => other

/-- Is a statement over where the text starts? After spaces and tabs there is nothing, a semicolon,
the end of the line or a comment. -/
def endsStatement (text : List Char) : Bool :=
  match text.dropWhile fun c => c == ' ' || c == '\t' with
  | [] => true
  | '/' :: '/' :: _ => true
  | '/' :: '*' :: _ => true
  | c :: _ => c == ';' || c == '\n' || c == '\r'

end CachedRoutes.Code
