import CachedRoutes.Text.Blank
import CachedRoutes.Text.Word

/-!
# Calls of a function by name

A source text calls a function when its name stands there, not as the end of a longer word and not
after a dot or a dollar sign, and an opening parenthesis follows. Comments and quoted texts are not
told apart from code here.
-/

namespace CachedRoutes.Code

/-- Does the text start with the name and, after blanks, a parenthesis? -/
def opensCall (name text : List Char) : Bool :=
  name.isPrefixOf text && (Text.trimStart (text.drop name.length)).head? == some '('

/-- May a name start after this character? -/
def endsWord (c : Char) : Bool :=
  !(Text.isWord c || c == '$' || c == '.')

/-- Is the function called somewhere after the first character of the text? -/
def callsLater (name : List Char) : List Char → Bool
  | [] => false
  | c :: rest => (endsWord c && opensCall name rest) || callsLater name rest

/-- Does the source text call the function of the given name? -/
def callsFunction (name text : List Char) : Bool :=
  opensCall name text || callsLater name text

end CachedRoutes.Code
