import CachedRoutes.Toml.Moment
import CachedRoutes.Toml.Value

/-!
# Unquoted values of TOML

Numbers, truth values and moments are words of letters, digits and a few marks. Integers fit into 64
bits with a sign; a number with a fraction or an exponent is not beyond the largest double.
-/

namespace CachedRoutes.Toml

/-- Characters of an unquoted value. -/
def isWordChar (c : Char) : Bool :=
  c.isAlphanum || c == '_' || c == '+' || c == '-' || c == '.' || c == ':'

/-- Digits without the underscores between them. An underscore has a digit on both sides. -/
def ungroup? (base : Nat) : List Char → Option (List Char)
  | [] => none
  | [c] => if (digit? base c).isSome then some [c] else none
  | c :: '_' :: rest => if (digit? base c).isSome then (ungroup? base rest).map (c :: ·) else none
  | c :: rest => if (digit? base c).isSome then (ungroup? base rest).map (c :: ·) else none

/-- The sign of a number and what follows it; is it negative? -/
def splitSign : List Char → Bool × List Char
  | '+' :: rest => (false, rest)
  | '-' :: rest => (true, rest)
  | text => (false, text)

/-- The digits of a decimal integer, which does not start with a zero unless it is zero. -/
def decimal? (text : List Char) : Option (List Char) :=
  match ungroup? 10 text with
  | some ('0' :: _ :: _) => none
  | other => other

/-! ## Integers -/

/-- The integer, if it fits into 64 bits. -/
def bounded? (n : Int) : Option Int :=
  if -9223372036854775808 ≤ n ∧ n < 9223372036854775808 then some n else none

/-- An integer that is the whole text. -/
def integer? (text : List Char) : Option Int :=
  let inBase (base : Nat) (digits : List Char) : Option Int :=
    (ungroup? base digits).bind fun digits => (number? base digits).bind fun n => bounded? n
  match text with
  | '0' :: 'x' :: digits => inBase 16 digits
  | '0' :: 'o' :: digits => inBase 8 digits
  | '0' :: 'b' :: digits => inBase 2 digits
  | _ =>
    let (negative, digits) := splitSign text
    (decimal? digits).bind fun digits =>
      (number? 10 digits).bind fun n => bounded? (if negative then -(n : Int) else n)

/-! ## Fractions -/

/-- The parts of a number with a fraction or an exponent. -/
structure Decimal where
  /-- Is it negative? -/
  negative : Bool
  /-- All digits, without the point. -/
  digits : List Char
  /-- The power of ten that the digits are multiplied with. -/
  exponent : Int
  deriving DecidableEq, Repr

/-- An exponent that is the whole text, given the text after its letter. -/
def exponent? (text : List Char) : Option Int :=
  let (negative, digits) := splitSign text
  (ungroup? 10 digits).bind fun digits =>
    (number? 10 digits).map fun n => if negative then -(n : Int) else n

/-- Is the character a digit or an underscore? -/
def isDigitOrGroup (c : Char) : Bool :=
  c.isDigit || c == '_'

/-- A number with a fraction or an exponent that is the whole text. -/
def decimalNumber? (text : List Char) : Option Decimal := do
  let (negative, unsigned) := splitSign text
  let whole ← decimal? (unsigned.takeWhile isDigitOrGroup)
  match unsigned.dropWhile isDigitOrGroup with
  | '.' :: rest =>
    let fraction ← ungroup? 10 (rest.takeWhile isDigitOrGroup)
    let shift : Int := fraction.length
    match rest.dropWhile isDigitOrGroup with
    | [] => some { negative, digits := whole ++ fraction, exponent := -shift }
    | letter :: power =>
      if letter = 'e' || letter = 'E' then
        (exponent? power).map fun exponent =>
          { negative, digits := whole ++ fraction, exponent := exponent - shift }
      else none
  | letter :: power =>
    if letter = 'e' || letter = 'E' then
      (exponent? power).map fun exponent => { negative, digits := whole, exponent }
    else none
  | [] => none

/-- Is the number, without its sign, too large for a double? The limit is half a unit of the last
place above the largest one. -/
def Decimal.isHuge (number : Decimal) : Bool :=
  let digits := number.digits.dropWhile (· == '0')
  let magnitude := digits.length + number.exponent
  if digits.isEmpty || magnitude < 300 then false
  else if magnitude > 320 then true
  else
    let n := (number? 10 digits).getD 0
    let limit := Nat.pow 2 1024 - Nat.pow 2 970
    if number.exponent ≥ 0 then limit ≤ n * Nat.pow 10 number.exponent.toNat
    else limit * Nat.pow 10 (-number.exponent).toNat ≤ n

/-- Is the text a number with a fraction or an exponent, infinity, or not-a-number? -/
def isFloat (text : List Char) : Bool :=
  let (_, unsigned) := splitSign text
  unsigned == "inf".toList || unsigned == "nan".toList
    || (decimalNumber? text).any fun number => number.negative || !number.isHuge

/-! ## Words -/

/-- The value of a word. -/
def wordValue? (word : List Char) : Option Value :=
  match moment? .strict word with
  | some moment => some (.moment moment.write)
  | none =>
    match integer? word with
    | some n => some (.integer n)
    | none =>
      if isFloat word then some (.float (String.ofList word))
      else if word = "true".toList then some (.boolean true)
      else if word = "false".toList then some (.boolean false)
      else none

/-- Is the word a date? -/
def isDate (word : List Char) : Bool :=
  (date? word).any fun read => read.2.isEmpty

/-- The unquoted value at the start of a text. A date may go on with a time after one space. -/
def scalar? (text : List Char) : Option (Value × List Char) :=
  let word := text.takeWhile isWordChar
  let rest := text.dropWhile isWordChar
  match rest with
  | ' ' :: c :: more =>
    if isDate word && c.isDigit then
      let time := (c :: more).takeWhile isWordChar
      (wordValue? (word ++ ' ' :: time)).map fun value => (value, (c :: more).dropWhile isWordChar)
    else (wordValue? word).map fun value => (value, rest)
  | _ => (wordValue? word).map fun value => (value, rest)

end CachedRoutes.Toml
