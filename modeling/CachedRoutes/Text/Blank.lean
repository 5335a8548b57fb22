/-!
# Blank characters

The characters with the Unicode property `White_Space`. Trimming and the patterns for source text
use this class; the token scanner of `Code` has a smaller, ASCII-only one.
-/

namespace CachedRoutes.Text

/-- Has the character the property `White_Space`? The zero-width characters U+200B and U+FEFF do
not have it. -/
def isBlank (c : Char) : Bool :=
  let n := c.toNat
  (9 ≤ n && n ≤ 13) || n == 0x20 || n == 0x85 || n == 0xA0 || n == 0x1680
    || (0x2000 ≤ n && n ≤ 0x200A) || n == 0x2028 || n == 0x2029 || n == 0x202F || n == 0x205F
    || n == 0x3000

/-- The text without its leading blanks. -/
def trimStart (text : List Char) : List Char :=
  text.dropWhile isBlank

/-- The text without its leading and trailing blanks. -/
def trim (text : List Char) : List Char :=
  ((trimStart text).reverse.dropWhile isBlank).reverse

/-- Is there nothing but blanks in the text? -/
def allBlank (text : List Char) : Bool :=
  text.all isBlank

end CachedRoutes.Text
