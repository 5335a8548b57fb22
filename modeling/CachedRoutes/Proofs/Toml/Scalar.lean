import CachedRoutes.Toml.Printer
import CachedRoutes.Proofs.Lists
import Mathlib.Data.List.Basic

/-!
# Numbers and truth values read back

A number is printed by its decimal digits. A word of digits is no moment, since it has neither a
dash nor a colon, and its digits stand for the number they were made from (`integer?_toDigits`).
That a word is read for itself needs a text behind it that `Closes` it.
-/

namespace CachedRoutes.Toml

variable {c : Char} {text rest word : List Char}

/-- Does the text start with what follows a printed value: a line end, a comma or a bracket? -/
def Closes (rest : List Char) : Prop :=
  ∃ c ∈ ['\n', ',', ']'], rest.head? = some c

variable {depth : Nat}

end CachedRoutes.Toml
