/-!
# Quoted texts of TOML

Basic texts stand in double quotes and have escapes, literal texts stand in single quotes and have
none. Each has a form with three quotes that may hold line ends. Control characters other than the
tab do not stand in any of them. A reader gets the text after the opening quotes and returns the
content and what follows the closing ones.
-/

namespace CachedRoutes.Toml

/-- Space or tab. -/
def isWhite (c : Char) : Bool :=
  c == ' ' || c == '\t'

/-- May the character stand in a comment? All but control characters, the tab excepted. -/
def isPlain (c : Char) : Bool :=
  c == '\t' || (0x20 ≤ c.toNat && c.toNat != 0x7f)

/-- The number that hexadecimal, octal, binary or decimal digits stand for, as far as they are
digits of the base. -/
def digit? (base : Nat) (c : Char) : Option Nat :=
  let value :=
    if c.isDigit then c.toNat - 48
    else if 'a' ≤ c ∧ c ≤ 'f' then c.toNat - 87
    else if 'A' ≤ c ∧ c ≤ 'F' then c.toNat - 55
    else base
  if value < base then some value else none

/-- The number written by digits of the base. -/
def number? (base : Nat) (digits : List Char) : Option Nat :=
  digits.foldlM (fun n c => (digit? base c).map (base * n + ·)) 0

/-- The character of an escape with so many hexadecimal digits. Surrogates are no characters. -/
def hexEscape? (count : Nat) (text : List Char) : Option (Char × List Char) :=
  if text.length < count then none
  else
    match number? 16 (text.take count) with
    | some n =>
      if n < 0xd800 || (0xdfff < n && n < 0x110000) then some (Char.ofNat n, text.drop count)
      else none
    | none => none

/-- The character of an escape, given the text after the backslash. -/
def escape? : List Char → Option (Char × List Char)
  | 'b' :: rest => some ('\x08', rest)
  | 't' :: rest => some ('\t', rest)
  | 'n' :: rest => some ('\n', rest)
  | 'f' :: rest => some ('\x0c', rest)
  | 'r' :: rest => some ('\r', rest)
  | '\x22' :: rest => some ('\x22', rest)
  | '\\' :: rest => some ('\\', rest)
  | 'u' :: rest => hexEscape? 4 rest
  | 'U' :: rest => hexEscape? 8 rest
  | _ => none

theorem length_hexEscape?_le {count : Nat} {text rest : List Char} {c : Char}
    (h : hexEscape? count text = some (c, rest)) : rest.length ≤ text.length := by
  unfold hexEscape? at h
  split at h
  · simp at h
  · split at h
    · split at h
      · simp only [Option.some.injEq, Prod.mk.injEq] at h
        rw [← h.2, List.length_drop]
        omega
      · simp at h
    · simp at h

theorem length_escape?_lt {text rest : List Char} {c : Char} (h : escape? text = some (c, rest)) :
    rest.length < text.length := by
  unfold escape? at h
  split at h
  case h_8 | h_9 => have := length_hexEscape?_le h; simp only [List.length_cons]; omega
  all_goals simp_all

/-- The content with a character in front of it. -/
def prepend (c : Char) (read : List Char × List Char) : List Char × List Char :=
  (c :: read.1, read.2)

/-! ## On one line -/

/-- A basic text. -/
def basicText? (text : List Char) : Option (List Char × List Char) :=
  match text with
  | [] => none
  | '\x22' :: rest => some ([], rest)
  | '\\' :: rest =>
    match _escape : escape? rest with
    | some (c, rest) => (basicText? rest).map (prepend c)
    | none => none
  | c :: rest => if isPlain c then (basicText? rest).map (prepend c) else none
termination_by text.length
decreasing_by
  · have := length_escape?_lt _escape; simp only [List.length_cons]; omega
  · simp only [List.length_cons]; omega

/-- A literal text. -/
def literalText? : List Char → Option (List Char × List Char)
  | [] => none
  | '\x27' :: rest => some ([], rest)
  | c :: rest => if isPlain c then (literalText? rest).map (prepend c) else none

/-! ## On several lines -/

/-- What follows three closing quotes: one or two further quotes belong to the content. -/
def closeWith (quote : Char) : List Char → List Char × List Char
  | a :: b :: rest =>
    if a = quote then
      if b = quote then ([quote, quote], rest) else ([quote], b :: rest)
    else ([], a :: b :: rest)
  | [a] => if a = quote then ([quote], []) else ([], [a])
  | [] => ([], [])

/-- The text without the line end at its start. -/
def dropLineEnd : List Char → List Char
  | '\n' :: rest => rest
  | '\r' :: '\n' :: rest => rest
  | text => text

/-- The text without the blanks and line ends at its start. -/
def dropBreaks : List Char → List Char
  | '\r' :: '\n' :: rest => dropBreaks rest
  | c :: rest => if isWhite c || c == '\n' then dropBreaks rest else c :: rest
  | [] => []

theorem length_dropBreaks_le (text : List Char) : (dropBreaks text).length ≤ text.length := by
  fun_induction dropBreaks text with
  | case1 rest ih => simp only [List.length_cons]; omega
  | case2 c rest _ _ ih => simp only [List.length_cons]; omega
  | case3 => exact Nat.le_refl _
  | case4 => exact Nat.le_refl _

/-- What follows an escaped line end, given the text after the backslash: blanks, the line end, and
all blanks and line ends behind it are skipped. -/
def joinedLine? (text : List Char) : Option (List Char) :=
  match text.dropWhile isWhite with
  | '\n' :: rest => some (dropBreaks rest)
  | '\r' :: '\n' :: rest => some (dropBreaks rest)
  | _ => none

theorem length_joinedLine?_lt {text rest : List Char} (h : joinedLine? text = some rest) :
    rest.length < text.length := by
  have hw := (List.dropWhile_sublist isWhite (l := text)).length_le
  unfold joinedLine? at h
  split at h
  · rename_i r hr
    have := length_dropBreaks_le r
    simp only [Option.some.injEq] at h
    rw [hr, List.length_cons] at hw
    rw [← h]
    omega
  · rename_i r hr
    have := length_dropBreaks_le r
    simp only [Option.some.injEq] at h
    rw [hr, List.length_cons, List.length_cons] at hw
    rw [← h]
    omega
  · simp at h

/-- A basic text in three quotes. A line end of two characters is read as one line feed. -/
def basicLines? (text : List Char) : Option (List Char × List Char) :=
  match text with
  | [] => none
  | '\x22' :: '\x22' :: '\x22' :: rest => some (closeWith '\x22' rest)
  | '\\' :: rest =>
    match _joined : joinedLine? rest with
    | some rest => basicLines? rest
    | none =>
      match _escape : escape? rest with
      | some (c, rest) => (basicLines? rest).map (prepend c)
      | none => none
  | '\r' :: '\n' :: rest => (basicLines? rest).map (prepend '\n')
  | c :: rest => if isPlain c || c == '\n' then (basicLines? rest).map (prepend c) else none
termination_by text.length
decreasing_by
  · have := length_joinedLine?_lt _joined; simp only [List.length_cons]; omega
  · have := length_escape?_lt _escape; simp only [List.length_cons]; omega
  · simp only [List.length_cons]; omega
  · simp only [List.length_cons]; omega

/-- A literal text in three quotes. -/
def literalLines? : List Char → Option (List Char × List Char)
  | [] => none
  | '\x27' :: '\x27' :: '\x27' :: rest => some (closeWith '\x27' rest)
  | '\r' :: '\n' :: rest => (literalLines? rest).map (prepend '\n')
  | c :: rest => if isPlain c || c == '\n' then (literalLines? rest).map (prepend c) else none

end CachedRoutes.Toml
