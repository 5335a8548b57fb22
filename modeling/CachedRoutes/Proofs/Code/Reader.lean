import CachedRoutes.Proofs.Code.Bracket
import CachedRoutes.Proofs.Code.Span

/-!
# Code, comments and quoted text, character by character

The scanner jumps over a comment or a quoted text as a whole, and for it a template is quoted text with
all that is interpolated in it. Here a reader goes through a text one character at a time and knows at
each one whether it stands in code, in a comment or in quoted text. What is interpolated in a template
is code.

* **Reading.** `Reader.step` and `Reader.after`; `regionBehind` is the region that a text leads into.
* **Quiet characters** (`Reader.after_of_quiet`): without slashes, quotes and braces the reader stays in
  code.
* **The scanner agrees** (`regionBehind_iff_not_covered`): where the text has no template, a name starts in
  code exactly if no span of the text covers its first character.
-/

namespace CachedRoutes.Code

/-! ## Reading -/

/-- What a part of a source text is. -/
inductive Region where
  | code
  | comment
  | quoted
  deriving DecidableEq, Repr

/-- Where a reader of source text stands, as far as the next character depends on it. -/
inductive Place where
  | code
  /-- In code, behind a slash that may open a comment. -/
  | slash
  | line
  | block
  /-- In a block comment, behind a star that may close it. -/
  | star
  | quoted (quote : Char)
  /-- In quoted text, behind a backslash. -/
  | escaped (quote : Char)
  /-- In a template, behind a dollar sign that may open an interpolation. -/
  | dollar
  deriving DecidableEq, Repr

/-- The region that a place belongs to. -/
def Place.region : Place → Region
  | code | slash => .code
  | line | block | star => .comment
  | quoted _ | escaped _ | dollar => .quoted

/-- A reader of source text. -/
structure Reader where
  place : Place
  /-- The braces that are open in each interpolation around the place, the innermost first. -/
  braces : List Nat
  deriving DecidableEq, Repr

namespace Reader

/-- In front of a text. -/
def start : Reader := ⟨.code, []⟩

/-- Behind an opening brace in code. -/
def opened : List Nat → Reader
  | [] => ⟨.code, []⟩
  | count :: outer => ⟨.code, (count + 1) :: outer⟩

/-- Behind a closing brace in code: it closes a brace or, if none is open, the interpolation. -/
def closed : List Nat → Reader
  | [] => ⟨.code, []⟩
  | 0 :: outer => ⟨.quoted backtick, outer⟩
  | (count + 1) :: outer => ⟨.code, count :: outer⟩

/-- Behind a character of code. -/
def inCode (braces : List Nat) (c : Char) : Reader :=
  if c = '/' then ⟨.slash, braces⟩
  else if isQuote c then ⟨.quoted c, braces⟩
  else if c = '\x7b' then opened braces
  else if c = '\x7d' then closed braces
  else ⟨.code, braces⟩

/-- Behind a character of quoted text. Quoted text that is not closed ends with its line, unless it is
a template. -/
def inQuoted (quote : Char) (braces : List Nat) (c : Char) : Reader :=
  if c = '\\' then ⟨.escaped quote, braces⟩
  else if c = quote then ⟨.code, braces⟩
  else if c = '\n' && quote != backtick then ⟨.code, braces⟩
  else if c = '$' && quote == backtick then ⟨.dollar, braces⟩
  else ⟨.quoted quote, braces⟩

/-- Reads one character. -/
def step (reader : Reader) (c : Char) : Reader :=
  match reader.place with
  | .code => inCode reader.braces c
  | .slash =>
    if c = '/' then ⟨.line, reader.braces⟩
    else if c = '*' then ⟨.block, reader.braces⟩
    else inCode reader.braces c
  | .line => if c = '\n' then ⟨.code, reader.braces⟩ else reader
  | .block => if c = '*' then ⟨.star, reader.braces⟩ else reader
  | .star =>
    if c = '/' then ⟨.code, reader.braces⟩
    else if c = '*' then reader
    else ⟨.block, reader.braces⟩
  | .quoted quote => inQuoted quote reader.braces c
  | .escaped quote => ⟨.quoted quote, reader.braces⟩
  | .dollar =>
    if c = '\x7b' then ⟨.code, 0 :: reader.braces⟩ else inQuoted backtick reader.braces c

/-- Reads a text. -/
def after (reader : Reader) (text : List Char) : Reader :=
  text.foldl step reader

/-- A reader goes through a text one character at a time. -/
@[simp] lemma after_cons (reader : Reader) (c : Char) (text : List Char) :
    reader.after (c :: text) = (reader.step c).after text := rfl

/-- A reader goes through two texts one after the other. -/
lemma after_append (reader : Reader) (front rest : List Char) :
    reader.after (front ++ rest) = (reader.after front).after rest :=
  List.foldl_append

end Reader

/-- The region that a text leads into: what stands behind it belongs to this region, unless it opens or
closes something itself. -/
def regionBehind (front : List Char) : Region :=
  (Reader.start.after front).place.region

/-! ## Quiet characters -/

/-- The character opens and closes nothing: code goes on behind it as in front of it. -/
structure IsQuiet (c : Char) : Prop where
  not_mark : isInertMark c = false
  not_star : c ≠ '*'
  not_open : c ≠ '\x7b'
  not_close : c ≠ '\x7d'
  not_feed : c ≠ '\n'

/-- A quiet character is no slash. -/
lemma IsQuiet.not_slash {c : Char} (h : IsQuiet c) : c ≠ '/' := by
  rintro rfl
  exact absurd h.not_mark (by decide)

/-- The characters of identifiers are quiet. -/
lemma isQuiet_of_isIdentifierChar {c : Char} (h : isIdentifierChar c = true) : IsQuiet c := by
  refine ⟨?_, ?_, ?_, ?_, ?_⟩
  · rw [Bool.eq_false_iff, ne_eq, isInertMark, isQuote]
    simp only [Bool.or_eq_true, beq_iff_eq]
    rintro (rfl | (rfl | rfl) | rfl) <;> exact absurd h (by decide)
  all_goals
    rintro rfl
    exact absurd h (by decide)

namespace Reader

/-- A quiet character leaves code as it is. -/
lemma inCode_of_isQuiet {c : Char} (hc : IsQuiet c) (braces : List Nat) :
    inCode braces c = ⟨.code, braces⟩ := by
  have hmark := hc.not_mark
  rw [isInertMark, Bool.or_eq_false_iff, beq_eq_false_iff_ne] at hmark
  rw [inCode, if_neg hmark.1, if_neg (by simp [hmark.2]), if_neg hc.not_open, if_neg hc.not_close]

/-- In code, a reader stays in code over a quiet character. -/
lemma step_of_isQuiet {reader : Reader} {c : Char} (hcode : reader.place.region = .code)
    (hc : IsQuiet c) : reader.step c = ⟨.code, reader.braces⟩ := by
  obtain ⟨place, braces⟩ := reader
  cases place with
  | code => exact inCode_of_isQuiet hc braces
  | slash =>
    refine (if_neg hc.not_slash).trans ((if_neg hc.not_star).trans ?_)
    exact inCode_of_isQuiet hc braces
  | line | block | star | quoted | escaped | dollar => exact Region.noConfusion hcode

/-- **A quiet text in code is code from one end to the other.** -/
lemma after_of_quiet {reader : Reader} {text : List Char} (hcode : reader.place.region = .code)
    (htext : ∀ c ∈ text, IsQuiet c) : (reader.after text).place.region = .code := by
  induction text generalizing reader with
  | nil => exact hcode
  | cons c text ih =>
    rw [after_cons, step_of_isQuiet hcode (htext c List.mem_cons_self)]
    exact ih rfl fun d hd => htext d (List.mem_cons_of_mem c hd)

end Reader

/-- Behind quiet characters in code there is code. -/
lemma regionBehind_append_of_quiet {front text : List Char} (hcode : regionBehind front = .code)
    (htext : ∀ c ∈ text, IsQuiet c) : regionBehind (front ++ text) = .code := by
  rw [regionBehind, Reader.after_append]
  exact Reader.after_of_quiet hcode htext

/-! ## The scanner agrees -/

/-- What the scanner takes for the text behind the comment or quoted text that the reader stands in. In
code it is the text itself. -/
def Place.behind (place : Place) (text : List Char) : List Char :=
  match place with
  | .code | .dollar => text
  | .slash =>
    if text.head? = some '/' then afterLine text.tail
    else if text.head? = some '*' then afterBlock text.tail
    else text
  | .line => afterLine text
  | .block => afterBlock text
  | .star => if text.head? = some '/' then text.tail else afterBlock text
  | .quoted quote => (afterQuoted? quote text).getD (afterLine text)
  | .escaped quote => (afterQuoted? quote text.tail).getD (afterLine text)

/-- What a reader comes through where it meets no template and no line that goes on in the next one. -/
structure Steady (place : Place) (text : List Char) : Prop where
  not_dollar : place ≠ .dollar
  /-- Quoted text is in single or double quotes. -/
  quotes : ∀ quote, place = .quoted quote ∨ place = .escaped quote →
    quote = '\x27' ∨ quote = '\x22'
  no_template : backtick ∉ text
  no_escaped_feed : ¬ ['\\', '\n'] <:+: text
  /-- The backslash in front does not hide a line feed. -/
  no_feed : ∀ quote, place = .escaped quote → text.head? ≠ some '\n'

/-- One character of the reader and what the scanner makes of it. In code, a comment or a quoted text
may open; and inside of one, the reader is on the way to the same end. -/
def Follows (place next : Place) (c : Char) (rest : List Char) : Prop :=
  (place.behind (c :: rest) = c :: rest ∧ next.behind rest = (afterInert? c rest).getD rest) ∨
    ((place.behind (c :: rest)).length ≤ rest.length ∧ next.behind rest = place.behind (c :: rest))

section Steps

variable {place : Place} {quote c : Char} {rest : List Char}

/-- A character that is no line feed belongs to the line comment. -/
lemma afterLine_cons_of_ne (hc : c ≠ '\n') : afterLine (c :: rest) = afterLine rest :=
  List.dropWhile_cons_of_pos (by simpa using hc)

/-- A character that is no star belongs to the block comment. -/
lemma afterBlock_cons_of_ne (hc : c ≠ '*') : afterBlock (c :: rest) = afterBlock rest := by
  rw [afterBlock, afterBlock?]
  · rfl
  · rintro tail hstar -
    exact hc hstar

/-- A block comment takes its first character at least. -/
lemma length_afterBlock_cons (c : Char) (rest : List Char) :
    (afterBlock (c :: rest)).length ≤ rest.length := by
  unfold afterBlock
  cases h : afterBlock? (c :: rest) with
  | none => exact Nat.zero_le _
  | some after => exact Nat.le_of_lt_succ (length_afterBlock?_lt h)

namespace Place

/-- A slash with neither a slash nor a star behind it opens nothing. -/
lemma behind_slash_of_ne (hslash : c ≠ '/') (hstar : c ≠ '*') :
    behind .slash (c :: rest) = c :: rest :=
  (if_neg (mt Option.some.inj hslash)).trans (if_neg (mt Option.some.inj hstar))

/-- A star with no slash behind it does not close the comment. -/
lemma behind_star_of_ne (hc : c ≠ '/') : behind .star (c :: rest) = afterBlock (c :: rest) :=
  if_neg (mt Option.some.inj hc)

/-- Behind a star, the comment is read as from the star on. -/
lemma behind_star (rest : List Char) : behind .star rest = afterBlock ('*' :: rest) := by
  cases rest with
  | nil => rfl
  | cons d rest =>
    by_cases hd : d = '/'
    · subst hd
      rfl
    · have hskip : afterBlock? ('*' :: d :: rest) = afterBlock? (d :: rest) := by
        rw [afterBlock?]
        rintro tail - hslash
        exact hd (List.cons.inj hslash).1
      rw [behind_star_of_ne hd, afterBlock, afterBlock, hskip]

end Place

/-- From code, a comment or a quoted text opens for the reader where one opens for the scanner. -/
lemma behind_inCode (hc : c ≠ backtick) (rest : List Char) :
    (Reader.inCode [] c).place.behind rest = (afterInert? c rest).getD rest := by
  unfold Reader.inCode
  by_cases hslash : c = '/'
  · subst hslash
    rw [if_pos rfl]
    cases rest with
    | nil => rfl
    | cons d rest =>
      by_cases hline : d = '/'
      · subst hline
        rfl
      by_cases hblock : d = '*'
      · subst hblock
        rfl
      rw [Place.behind_slash_of_ne hline hblock]
      unfold afterInert?
      split <;> simp_all [isQuote, backtick]
  rw [if_neg hslash]
  have hinert : afterInert? c rest
      = if isQuote c then some ((afterQuoted? c rest).getD (afterLine rest)) else none := by
    unfold afterInert?
    split <;> simp_all
  rw [hinert]
  by_cases hquote : isQuote c = true
  · rw [if_pos hquote, if_pos hquote]
    rfl
  · rw [if_neg hquote, if_neg hquote]
    split
    · rfl
    · split <;> rfl

/-- A quoted text leaves no more than the text. -/
lemma length_behind_quoted (quote : Char) (text : List Char) :
    ((Place.quoted quote).behind text).length ≤ text.length := by
  show ((afterQuoted? quote text).getD (afterLine text)).length ≤ text.length
  cases h : afterQuoted? quote text with
  | none => exact length_afterLine_le text
  | some after => exact Nat.le_of_lt (length_afterQuoted?_lt h)

/-- A quoted text takes its first character, unless that ends the line. -/
lemma length_behind_quoted_cons (hfeed : c ≠ '\n') :
    ((Place.quoted quote).behind (c :: rest)).length ≤ rest.length := by
  show ((afterQuoted? quote (c :: rest)).getD (afterLine (c :: rest))).length ≤ rest.length
  cases h : afterQuoted? quote (c :: rest) with
  | none =>
    rw [afterLine_cons_of_ne hfeed]
    exact length_afterLine_le rest
  | some after => exact Nat.le_of_lt_succ (length_afterQuoted?_lt h)

/-- A character behind a backslash belongs to the quoted text. -/
lemma behind_escaped (hfeed : c ≠ '\n') :
    (Place.escaped quote).behind (c :: rest) = (Place.quoted quote).behind rest := by
  show (afterQuoted? quote rest).getD (afterLine (c :: rest)) = _
  rw [afterLine_cons_of_ne hfeed]
  rfl

/-- In quoted text, the reader and the scanner find the same end. -/
lemma follows_inQuoted (hquote : quote = '\x27' ∨ quote = '\x22') (c : Char) (rest : List Char) :
    Follows (.quoted quote) (Reader.inQuoted quote [] c).place c rest := by
  have hkind : quote ≠ '\n' ∧ quote ≠ '\\' ∧ quote ≠ backtick := by
    rcases hquote with rfl | rfl <;> decide
  obtain ⟨hquoteFeed, hquoteEscape, htemplate⟩ := hkind
  by_cases hfeed : c = '\n'
  · -- the scanner gives up in front of the line feed, and the reader behind it
    subst hfeed
    have hnone : afterQuoted? quote ('\n' :: rest) = none := by
      rw [afterQuoted?] <;> simp [htemplate]
    have hnext : Reader.inQuoted quote [] '\n' = ⟨.code, []⟩ := by
      simp [Reader.inQuoted, htemplate]
    rw [hnext]
    left
    refine ⟨?_, rfl⟩
    show (afterQuoted? quote ('\n' :: rest)).getD (afterLine ('\n' :: rest)) = '\n' :: rest
    rw [hnone]
    rfl
  refine .inr ⟨length_behind_quoted_cons hfeed, ?_⟩
  unfold Reader.inQuoted
  by_cases hescape : c = '\\'
  · subst hescape
    cases rest with
    | nil => rfl
    | cons d rest => rfl
  rw [if_neg hescape]
  by_cases hclose : c = quote
  · subst hclose
    rw [if_pos rfl]
    show rest = (afterQuoted? c (c :: rest)).getD _
    rw [afterQuoted?_close hquoteEscape hquoteFeed]
    rfl
  · rw [if_neg hclose, if_neg (by simp [hfeed]), if_neg (by simp [htemplate])]
    show (afterQuoted? quote rest).getD _ = (afterQuoted? quote (c :: rest)).getD _
    rw [afterQuoted?_char hclose hescape fun h => absurd h hfeed, afterLine_cons_of_ne hfeed]

/-- What holds of the rest of a text, for a place that the reader can come to. -/
lemma Steady.tail (h : Steady place (c :: rest)) {next : Place} (hdollar : next ≠ .dollar)
    (hquotes : ∀ quote, next = .quoted quote ∨ next = .escaped quote →
      quote = '\x27' ∨ quote = '\x22')
    (hescaped : ∀ quote, next = .escaped quote → c = '\\') : Steady next rest where
  not_dollar := hdollar
  quotes := hquotes
  no_template := fun hmem => h.no_template (List.mem_cons_of_mem c hmem)
  no_escaped_feed := fun hinfix => h.no_escaped_feed (List.infix_cons hinfix)
  no_feed := by
    intro quote hnext hfeed
    obtain rfl := hescaped quote hnext
    obtain ⟨tail, rfl⟩ := List.head?_eq_some_iff.mp hfeed
    exact h.no_escaped_feed ⟨[], tail, rfl⟩

/-- What holds of the rest of a text, behind which the reader is in no quoted text. -/
lemma Steady.outside (h : Steady place (c :: rest)) {next : Place}
    (hnext : next.region ≠ .quoted) : Steady next rest := by
  refine h.tail ?_ ?_ ?_
  · rintro rfl
    exact hnext rfl
  · rintro quote (rfl | rfl) <;> exact absurd rfl hnext
  · rintro quote rfl
    exact absurd rfl hnext

/-- A steady text stays steady behind a character of code. -/
lemma Steady.inCode (h : Steady place (c :: rest)) :
    (Reader.inCode [] c).braces = [] ∧ Steady (Reader.inCode [] c).place rest := by
  unfold Reader.inCode
  split
  · exact ⟨rfl, h.outside (by decide)⟩
  split
  · rename_i hquote
    refine ⟨rfl, h.tail (by simp) ?_ (by simp)⟩
    rintro quote (heq | heq)
    · obtain rfl := Place.quoted.inj heq
      rw [isQuote, Bool.or_eq_true, Bool.or_eq_true, beq_iff_eq, beq_iff_eq, beq_iff_eq] at hquote
      rcases hquote with hquote | rfl
      · exact hquote
      · exact absurd List.mem_cons_self h.no_template
    · simp at heq
  split
  · exact ⟨rfl, h.outside (by decide)⟩
  split <;> exact ⟨rfl, h.outside (by decide)⟩

/-- A steady text stays steady behind a character in quotes. -/
lemma Steady.inQuoted (h : Steady (.quoted quote) (c :: rest)) :
    (Reader.inQuoted quote [] c).braces = [] ∧ Steady (Reader.inQuoted quote [] c).place rest := by
  have hquote := h.quotes quote (.inl rfl)
  unfold Reader.inQuoted
  split
  · rename_i hescape
    refine ⟨rfl, h.tail (by simp) ?_ fun _ _ => hescape⟩
    rintro other (heq | heq)
    · simp at heq
    · exact Place.escaped.inj heq ▸ hquote
  split
  · exact ⟨rfl, h.outside (by decide)⟩
  split
  · exact ⟨rfl, h.outside (by decide)⟩
  split
  · rename_i hdollar
    rcases hquote with rfl | rfl <;> simp [backtick] at hdollar
  · refine ⟨rfl, h.tail (by simp) ?_ (by simp)⟩
    rintro other (heq | heq)
    · exact Place.quoted.inj heq ▸ hquote
    · simp at heq

/-- The reader follows the scanner over a character, and what it meets from there on is as before. -/
structure Goes (place : Place) (c : Char) (rest : List Char) : Prop where
  braces_eq : ((⟨place, []⟩ : Reader).step c).braces = []
  steady : Steady ((⟨place, []⟩ : Reader).step c).place rest
  follows : Follows place ((⟨place, []⟩ : Reader).step c).place c rest

/-- A steady text has no backtick in front. -/
lemma Steady.ne_backtick (h : Steady place (c :: rest)) : c ≠ backtick := by
  rintro rfl
  exact h.no_template List.mem_cons_self

/-- A reader in code goes along with the scanner. -/
lemma goes_code (h : Steady .code (c :: rest)) : Goes .code c rest :=
  ⟨h.inCode.1, h.inCode.2, .inl ⟨rfl, behind_inCode h.ne_backtick rest⟩⟩

/-- A reader behind a slash goes along with the scanner. -/
lemma goes_slash (h : Steady .slash (c :: rest)) : Goes .slash c rest := by
  by_cases hslash : c = '/'
  · subst hslash
    exact ⟨rfl, h.outside (by decide), .inr ⟨length_afterLine_le rest, rfl⟩⟩
  by_cases hstar : c = '*'
  · subst hstar
    exact ⟨rfl, h.outside (by decide), .inr ⟨length_afterBlock_le rest, rfl⟩⟩
  have hstep : (⟨.slash, []⟩ : Reader).step c = Reader.inCode [] c :=
    (if_neg hslash).trans (if_neg hstar)
  constructor <;> rw [hstep]
  · exact h.inCode.1
  · exact h.inCode.2
  · exact .inl ⟨Place.behind_slash_of_ne hslash hstar, behind_inCode h.ne_backtick rest⟩

/-- A reader in a line comment goes along with the scanner. -/
lemma goes_line (h : Steady .line (c :: rest)) : Goes .line c rest := by
  by_cases hfeed : c = '\n'
  · subst hfeed
    exact ⟨rfl, h.outside (by decide), .inl ⟨rfl, rfl⟩⟩
  have hstep : (⟨.line, []⟩ : Reader).step c = ⟨.line, []⟩ := if_neg hfeed
  have hskip : Place.behind .line (c :: rest) = afterLine rest := afterLine_cons_of_ne hfeed
  constructor <;> rw [hstep]
  · exact h.outside (by decide)
  · refine .inr ⟨?_, hskip.symm⟩
    rw [hskip]
    exact length_afterLine_le rest

/-- A reader in a block comment goes along with the scanner. -/
lemma goes_block (h : Steady .block (c :: rest)) : Goes .block c rest := by
  have hlength : (Place.behind .block (c :: rest)).length ≤ rest.length :=
    length_afterBlock_cons c rest
  by_cases hstar : c = '*'
  · subst hstar
    exact ⟨rfl, h.outside (by decide), .inr ⟨hlength, Place.behind_star rest⟩⟩
  have hstep : (⟨.block, []⟩ : Reader).step c = ⟨.block, []⟩ := if_neg hstar
  constructor <;> rw [hstep]
  · exact h.outside (by decide)
  · exact .inr ⟨hlength, (afterBlock_cons_of_ne hstar).symm⟩

/-- A reader behind a star in a comment goes along with the scanner. -/
lemma goes_star (h : Steady .star (c :: rest)) : Goes .star c rest := by
  by_cases hslash : c = '/'
  · subst hslash
    exact ⟨rfl, h.outside (by decide), .inr ⟨Nat.le_refl _, rfl⟩⟩
  have hbehind : Place.behind .star (c :: rest) = afterBlock (c :: rest) :=
    Place.behind_star_of_ne hslash
  have hlength := length_afterBlock_cons c rest
  rw [← hbehind] at hlength
  by_cases hstar : c = '*'
  · subst hstar
    exact ⟨rfl, h.outside (by decide), .inr ⟨hlength, (Place.behind_star rest).trans hbehind.symm⟩⟩
  have hstep : (⟨.star, []⟩ : Reader).step c = ⟨.block, []⟩ :=
    (if_neg hslash).trans (if_neg hstar)
  constructor <;> rw [hstep]
  · exact h.outside (by decide)
  · exact .inr ⟨hlength, (afterBlock_cons_of_ne hstar).symm.trans hbehind.symm⟩

/-- A reader in quotes goes along with the scanner. -/
lemma goes_quoted (h : Steady (.quoted quote) (c :: rest)) : Goes (.quoted quote) c rest :=
  ⟨h.inQuoted.1, h.inQuoted.2, follows_inQuoted (h.quotes quote (.inl rfl)) c rest⟩

/-- A reader behind a backslash goes along with the scanner. -/
lemma goes_escaped (h : Steady (.escaped quote) (c :: rest)) : Goes (.escaped quote) c rest := by
  have hfeed : c ≠ '\n' := by
    rintro rfl
    exact h.no_feed quote rfl rfl
  have hsteady : Steady (.quoted quote) rest := by
    refine h.tail (by simp) ?_ (by simp)
    rintro other (heq | heq)
    · exact Place.quoted.inj heq ▸ h.quotes quote (.inr rfl)
    · simp at heq
  refine ⟨rfl, hsteady, .inr ⟨?_, (behind_escaped hfeed).symm⟩⟩
  rw [behind_escaped hfeed]
  exact length_behind_quoted quote rest

/-- **One step.** The reader follows the scanner from any place. -/
lemma Steady.goes (h : Steady place (c :: rest)) : Goes place c rest := by
  cases place with
  | code => exact goes_code h
  | slash => exact goes_slash h
  | line => exact goes_line h
  | block => exact goes_block h
  | star => exact goes_star h
  | quoted quote => exact goes_quoted h
  | escaped quote => exact goes_escaped h
  | dollar => exact absurd rfl h.not_dollar

end Steps

/-- At a character that opens and closes nothing, a reader in code is where the scanner is, and any other
is inside of something that the scanner passes over. -/
lemma Steady.region_cases {place : Place} {c : Char} {rest : List Char} (h : Steady place (c :: rest))
    (hc : IsQuiet c) :
    (place.region = .code ∧ place.behind (c :: rest) = c :: rest) ∨
      (place.region ≠ .code ∧ (place.behind (c :: rest)).length ≤ rest.length) := by
  cases place with
  | code => exact .inl ⟨rfl, rfl⟩
  | slash => exact .inl ⟨rfl, Place.behind_slash_of_ne hc.not_slash hc.not_star⟩
  | line =>
    refine .inr ⟨by decide, ?_⟩
    show (afterLine (c :: rest)).length ≤ _
    rw [afterLine_cons_of_ne hc.not_feed]
    exact length_afterLine_le rest
  | block => exact .inr ⟨by decide, length_afterBlock_cons c rest⟩
  | star =>
    refine .inr ⟨by decide, ?_⟩
    rw [Place.behind_star_of_ne hc.not_slash]
    exact length_afterBlock_cons c rest
  | quoted quote => exact .inr ⟨by simp [Place.region], length_behind_quoted_cons hc.not_feed⟩
  | escaped quote =>
    refine .inr ⟨by simp [Place.region], ?_⟩
    rw [behind_escaped hc.not_feed]
    exact length_behind_quoted quote rest
  | dollar => exact absurd rfl h.not_dollar

/-- For the scanner, the character at the offset lies neither in what is open at the place nor in a
span behind that. -/
def Clear (place : Place) (start : Nat) (text : List Char) (offset : Nat) : Prop :=
  text.length - (place.behind text).length ≤ offset ∧
    ∀ span ∈ spansFrom (start + (text.length - (place.behind text).length)) (place.behind text),
      span.covers (start + offset) = false

/-- No span covers the start of a text that begins with a character which opens nothing. -/
lemma not_covers_start {c : Char} (hc : IsQuiet c) (start : Nat) (rest : List Char) :
    ∀ span ∈ spansFrom start (c :: rest), span.covers start = false := by
  intro span hspan
  obtain ⟨front, d, inside, after, htext, hinert, rfl⟩ := mem_spansFrom hspan
  cases front with
  | nil =>
    obtain ⟨rfl, -⟩ := List.cons.inj htext
    exact absurd (afterInert?_starts hinert) (by simp [hc.not_mark])
  | cons e front =>
    rw [Bool.eq_false_iff, ne_eq, Span.covers_iff, List.length_cons]
    dsimp only
    omega

/-- At a character that opens and closes nothing, the reader and the scanner agree. -/
lemma Steady.region_iff_clear {place : Place} {c : Char} {rest : List Char}
    (h : Steady place (c :: rest)) (hc : IsQuiet c) (start : Nat) :
    place.region = .code ↔ Clear place start (c :: rest) 0 := by
  unfold Clear
  rcases h.region_cases hc with ⟨hregion, hbehind⟩ | ⟨hregion, hbehind⟩
  · rw [hbehind, Nat.sub_self]
    exact iff_of_true hregion ⟨Nat.le_refl _, not_covers_start hc start rest⟩
  · refine iff_of_false hregion ?_
    rintro ⟨hlength, -⟩
    rw [List.length_cons] at hlength
    omega

/-- Where the reader follows the scanner, the same characters are clear behind it. -/
lemma Follows.clear_iff {place next : Place} {c : Char} {rest : List Char}
    (h : Follows place next c rest) (start offset : Nat) :
    Clear next (start + 1) rest offset ↔ Clear place start (c :: rest) (offset + 1) := by
  unfold Clear
  have hhere : start + 1 + offset = start + (offset + 1) := by omega
  rw [List.length_cons, hhere]
  rcases h with ⟨hbehind, hnext⟩ | ⟨hlength, hnext⟩
  · rw [hbehind, List.length_cons, Nat.sub_self]
    simp only [Nat.add_zero]
    cases hinert : afterInert? c rest with
    | none =>
      rw [hinert, Option.getD_none] at hnext
      rw [hnext, spansFrom_cons_none hinert, Nat.sub_self, Nat.add_zero]
      simp
    | some after =>
      have hafter := length_afterInert?_le hinert
      have hstop : start + 1 + (rest.length - after.length)
          = start + (rest.length + 1 - after.length) := by omega
      have hopened : (⟨start, start + (rest.length + 1 - after.length)⟩ : Span).covers
          (start + (offset + 1)) = false ↔ rest.length - after.length ≤ offset := by
        rw [Bool.eq_false_iff, ne_eq, Span.covers_iff]
        dsimp only
        omega
      rw [hinert, Option.getD_some] at hnext
      rw [hnext, hstop, spansFrom_cons_some hinert, List.forall_mem_cons, hopened]
      simp
  · have hstop : start + 1 + (rest.length - (place.behind (c :: rest)).length)
        = start + (rest.length + 1 - (place.behind (c :: rest)).length) := by omega
    have hopen : rest.length - (place.behind (c :: rest)).length ≤ offset ↔
        rest.length + 1 - (place.behind (c :: rest)).length ≤ offset + 1 := by omega
    rw [hnext, hstop, hopen]

/-- **The whole way.** From any place, a reader comes to code exactly where the scanner has nothing
open. -/
lemma region_after_iff {place : Place} {start : Nat} {front rest : List Char} {c : Char}
    (h : Steady place (front ++ c :: rest)) (hc : IsQuiet c) :
    ((⟨place, []⟩ : Reader).after front).place.region = .code ↔
      Clear place start (front ++ c :: rest) front.length := by
  induction front generalizing place start with
  | nil => exact h.region_iff_clear hc start
  | cons d front ih =>
    rw [List.cons_append] at h ⊢
    obtain ⟨hbraces, hsteady, hfollows⟩ := h.goes
    rw [Reader.after_cons, List.length_cons, ← hfollows.clear_iff]
    cases hstep : (⟨place, []⟩ : Reader).step d with
    | mk next braces =>
      rw [hstep] at hbraces hsteady
      obtain rfl : braces = [] := hbraces
      exact ih hsteady

/-- **The reader and the scanner agree on names.** In a text without templates and without lines that go
on in the next one, a name character is code for the reader exactly if no span covers it. -/
lemma regionBehind_iff_not_covered {front rest : List Char} {c : Char} (hc : isIdentifierChar c = true)
    (htemplate : backtick ∉ front ++ c :: rest)
    (hfeed : ¬ ['\\', '\n'] <:+: front ++ c :: rest) :
    regionBehind front = .code ↔
      ∀ span ∈ spans (front ++ c :: rest), span.covers front.length = false := by
  have hsteady : Steady .code (front ++ c :: rest) :=
    ⟨by decide, by simp, htemplate, hfeed, by simp⟩
  have hiff := @region_after_iff .code 0 front rest c hsteady (isQuiet_of_isIdentifierChar hc)
  have hbehind : Place.behind .code (front ++ c :: rest) = front ++ c :: rest := rfl
  rw [Clear, hbehind, Nat.sub_self, Nat.zero_add, Nat.zero_add] at hiff
  exact hiff.trans (and_iff_right (Nat.zero_le _))

end CachedRoutes.Code
