/-!
# Text as a list of characters

All scanning in this library runs on `List Char`, so that a scanner's state is the text that is
still to be read and a position is the number of characters before it. This module has the few
operations the rest shares: substring tests, cutting at a separator, line starts, and the UTF-8
measure that turns a position into a byte offset.
-/

namespace CachedRoutes.Text

/-! ## Substrings -/

/-- Does `needle` stand somewhere in the text? The empty needle stands in every text. -/
def contains (needle : List Char) : List Char → Bool
  | [] => needle.isEmpty
  | c :: rest => needle.isPrefixOf (c :: rest) || contains needle rest

/-- `contains` decides the infix relation. -/
theorem contains_iff {needle text : List Char} :
    contains needle text = true ↔ needle <:+: text := by
  induction text with
  | nil => simp [contains, List.isEmpty_iff]
  | cons c rest ih =>
    rw [contains, Bool.or_eq_true, ih, List.isPrefixOf_iff_prefix, List.infix_cons_iff]

/-! ## Cutting -/

/-- The pieces of a text between separators. There is always at least one piece, and two
separators in a row leave an empty piece between them. -/
def fields (sep : Char) : List Char → List (List Char)
  | [] => [[]]
  | c :: rest =>
    if c = sep then [] :: fields sep rest
    else
      match fields sep rest with
      | [] => [[c]]
      | first :: others => (c :: first) :: others

/-- What follows the word, if the text starts with it. -/
def after? (word text : List Char) : Option (List Char) :=
  if word.isPrefixOf text then some (text.drop word.length) else none

/-- The inner part of a text that starts with `opening` and, after it, ends with `closing`. -/
def between? (opening closing text : List Char) : Option (List Char) :=
  if opening.isPrefixOf text then
    let rest := text.drop opening.length
    if closing.isSuffixOf rest then some (rest.take (rest.length - closing.length)) else none
  else none

/-- The part of `text` in front of its ending `rest`. -/
def upTo (text rest : List Char) : List Char :=
  text.take (text.length - rest.length)

/-! ## Lines -/

/-- What follows each line feed, in order. -/
def afterLineFeeds : List Char → List (List Char)
  | [] => []
  | c :: rest => if c = '\n' then rest :: afterLineFeeds rest else afterLineFeeds rest

/-- The text from the start of each line on. Only a line feed starts a new line, and a text that
ends in one has an empty last line. -/
def lineStarts (text : List Char) : List (List Char) :=
  text :: afterLineFeeds text

/-- Space or tab: the characters that indent a line. -/
def isIndent (c : Char) : Bool :=
  c == ' ' || c == '\t'

/-! ## Byte offsets -/

/-- The number of bytes of a text in UTF-8. -/
def utf8Length : List Char → Nat
  | [] => 0
  | c :: rest => c.utf8Size + utf8Length rest

/-- The byte offset of the position after the first `n` characters. -/
def byteOffset (text : List Char) (n : Nat) : Nat :=
  utf8Length (text.take n)

/-- The UTF-8 measure is additive. -/
@[simp] theorem utf8Length_append (a b : List Char) :
    utf8Length (a ++ b) = utf8Length a + utf8Length b := by
  induction a with
  | nil => simp [utf8Length]
  | cons c a ih => simp [utf8Length, ih, Nat.add_assoc]

end CachedRoutes.Text
