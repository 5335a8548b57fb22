import CachedRoutes.Code.Trivia
import CachedRoutes.Text.Blank
import CachedRoutes.Text.Word
import Mathlib.Data.Fintype.Basic
import Mathlib.Data.List.Chain
import CachedRoutes.Proofs.Code.Name

/-!
# Source text as tokens

The scanner of this library goes through source text without naming its tokens. This module gives the
tokens on their own, as a relation between texts and token sequences (`Reads`), so that what the
scanner skips or accepts can be compared with what stands there.

* **Tokens.** Comments, quoted texts, numbers, names (with letters of any script), runs of dots, other
  marks, and templates. A template is not one token: its interpolations are code with tokens of their
  own, at one more level of nesting (`Token.depth`).
* **Reading.** `Reads .code d text tokens`: at depth `d` the text is read as these tokens, each as
  long as possible. Inside of an interpolation the braces are balanced (`Closed`), and a line comment
  ends with its line.
* **Plain texts** (`Plain`): the texts in which the scanner, which knows ASCII names only and looks
  for closing braces and backticks past comments and nested templates, sees the same tokens.
-/

namespace CachedRoutes.Code

/-! ## Tokens -/

/-- What a token is. -/
inductive Kind where
  | comment (body : List Char)
  | quoted (body : List Char)
  | number (text : List Char)
  | name (text : List Char)
  /-- So many dots in a row. -/
  | dots (count : Nat)
  /-- Any other single character. -/
  | mark (c : Char)
  /-- The backtick that opens a template. -/
  | template
  /-- The opening of an interpolation in a template. -/
  | interpolation
  /-- The brace that closes an interpolation. -/
  | resumption
  /-- The backtick that closes a template. -/
  | templateEnd
  deriving DecidableEq, Repr

/-- A token, with the number of interpolations it stands in. -/
structure Token where
  depth : Nat
  kind : Kind
  deriving DecidableEq, Repr

/-- Characters that end a line: line feed, carriage return, and the separators U+2028 and U+2029. -/
def isLineEnd (c : Char) : Bool :=
  c == '\n' || c == '\r' || c.toNat == 0x2028 || c.toNat == 0x2029

/-- Characters between tokens: blanks without U+0085, and U+FEFF. -/
def isGap (c : Char) : Bool :=
  (Text.isBlank c && c.toNat != 0x85) || c.toNat == 0xFEFF

/-- Characters of names: word characters of any script, and `$`. -/
def isIdentifierChar (c : Char) : Bool :=
  Text.isWord c || c == '$'

/-- Characters of a number apart from its dot. -/
def isDigitOrLetter (c : Char) : Bool :=
  c.isAlphanum || c == '_'

/-- A number starts with a digit, or with a dot and a digit. It has letters for bases, exponents and
suffixes, and a dot only behind plain digits. -/
inductive IsNumber : List Char → Prop where
  | whole {c : Char} {tail : List Char} (hc : c.isDigit = true)
      (htail : ∀ d ∈ tail, isDigitOrLetter d = true) : IsNumber (c :: tail)
  | decimal {c : Char} {digits tail : List Char} (hc : c.isDigit = true)
      (hdigits : ∀ d ∈ digits, (d.isDigit || d == '_') = true)
      (htail : ∀ d ∈ tail, isDigitOrLetter d = true) : IsNumber (c :: digits ++ '.' :: tail)
  | fraction {c : Char} {tail : List Char} (hc : c.isDigit = true)
      (htail : ∀ d ∈ tail, isDigitOrLetter d = true) : IsNumber ('.' :: c :: tail)

/-- What stands between two quotes: no such quote and no line feed, except behind a backslash. -/
inductive QuotedBody (quote : Char) : List Char → Prop where
  | nil : QuotedBody quote []
  | char {c : Char} {rest : List Char} (hquote : c ≠ quote) (hescape : c ≠ '\\') (hfeed : c ≠ '\n')
      (hrest : QuotedBody quote rest) : QuotedBody quote (c :: rest)
  | escape {c : Char} {rest : List Char} (hrest : QuotedBody quote rest) :
      QuotedBody quote ('\\' :: c :: rest)

/-- Characters that are tokens by themselves. -/
structure IsMark (c : Char) : Prop where
  not_gap : isGap c = false
  not_quote : isQuote c = false
  not_identifier : isIdentifierChar c = false
  not_dot : c ≠ '.'

/-- The number of open braces behind a token, given the number in front of it. A closing brace
without an opening one is an error. -/
def Kind.braces? (kind : Kind) (count : Nat) : Option Nat :=
  if kind = .mark '\x7b' then some (count + 1)
  else if kind = .mark '\x7d' then (if count = 0 then none else some (count - 1))
  else some count

/-- The number of open braces behind the tokens, given the number in front of them. -/
def bracesAfter? (count : Nat) (tokens : List Token) : Option Nat :=
  tokens.foldlM (fun count token => token.kind.braces? count) count

/-- The braces among the tokens are balanced. -/
def Closed (tokens : List Token) : Prop :=
  bracesAfter? 0 tokens = some 0

/-! ## Reading -/

/-- What a text is read as. -/
inductive Mode where
  | code
  /-- The inside of a template, without its backticks. -/
  | template
  deriving DecidableEq, Repr

/-- The text is read as the tokens. -/
inductive Reads : Mode → Nat → List Char → List Token → Prop where
  | nil {d : Nat} : Reads .code d [] []
  | gap {d : Nat} {c : Char} {rest : List Char} {tokens : List Token} (hc : isGap c = true)
      (hrest : Reads .code d rest tokens) : Reads .code d (c :: rest) tokens
  | lineComment {d : Nat} {body rest : List Char} {tokens : List Token}
      (hbody : ∀ c ∈ body, isLineEnd c = false) (hend : ∀ c ∈ rest.head?, isLineEnd c = true)
      (hinside : rest = [] → d = 0) (hrest : Reads .code d rest tokens) :
      Reads .code d ('/' :: '/' :: (body ++ rest)) (⟨d, .comment body⟩ :: tokens)
  | blockComment {d : Nat} {body rest : List Char} {tokens : List Token}
      (hbody : ¬ ['*', '/'] <:+: body) (hrest : Reads .code d rest tokens) :
      Reads .code d ('/' :: '*' :: (body ++ '*' :: '/' :: rest)) (⟨d, .comment body⟩ :: tokens)
  | quoted {d : Nat} {quote : Char} {body rest : List Char} {tokens : List Token}
      (hquote : quote = '\x27' ∨ quote = '\x22') (hbody : QuotedBody quote body)
      (hrest : Reads .code d rest tokens) :
      Reads .code d (quote :: (body ++ quote :: rest)) (⟨d, .quoted body⟩ :: tokens)
  | number {d : Nat} {text rest : List Char} {tokens : List Token} (htext : IsNumber text)
      (hend : ∀ c ∈ rest.head?, isDigitOrLetter c = false)
      (hdot : (∀ c ∈ text, (c.isDigit || c == '_') = true) → rest.head? ≠ some '.')
      (hrest : Reads .code d rest tokens) :
      Reads .code d (text ++ rest) (⟨d, .number text⟩ :: tokens)
  | name {d : Nat} {c : Char} {text rest : List Char} {tokens : List Token}
      (hdigit : c.isDigit = false) (htext : ∀ e ∈ c :: text, isIdentifierChar e = true)
      (hend : ∀ e ∈ rest.head?, isIdentifierChar e = false) (hrest : Reads .code d rest tokens) :
      Reads .code d (c :: (text ++ rest)) (⟨d, .name (c :: text)⟩ :: tokens)
  | dots {d count : Nat} {rest : List Char} {tokens : List Token} (hend : rest.head? ≠ some '.')
      (hdigit : count = 0 → ∀ c ∈ rest.head?, c.isDigit = false)
      (hrest : Reads .code d rest tokens) :
      Reads .code d ('.' :: (List.replicate count '.' ++ rest)) (⟨d, .dots (count + 1)⟩ :: tokens)
  | mark {d : Nat} {c : Char} {rest : List Char} {tokens : List Token} (hc : IsMark c)
      (hcomment : c = '/' → rest.head? ≠ some '/' ∧ rest.head? ≠ some '*')
      (hrest : Reads .code d rest tokens) : Reads .code d (c :: rest) (⟨d, .mark c⟩ :: tokens)
  | template {d : Nat} {body rest : List Char} {inner tokens : List Token}
      (hbody : Reads .template d body inner) (hrest : Reads .code d rest tokens) :
      Reads .code d (backtick :: (body ++ backtick :: rest))
        (⟨d, .template⟩ :: (inner ++ ⟨d, .templateEnd⟩ :: tokens))
  | done {d : Nat} : Reads .template d [] []
  | char {d : Nat} {c : Char} {rest : List Char} {tokens : List Token} (hquote : c ≠ backtick)
      (hescape : c ≠ '\\') (hopen : c = '$' → rest.head? ≠ some '\x7b')
      (hrest : Reads .template d rest tokens) : Reads .template d (c :: rest) tokens
  | escape {d : Nat} {c : Char} {rest : List Char} {tokens : List Token}
      (hrest : Reads .template d rest tokens) : Reads .template d ('\\' :: c :: rest) tokens
  | interpolation {d : Nat} {code rest : List Char} {inner tokens : List Token}
      (hcode : Reads .code (d + 1) code inner) (hclosed : Closed inner)
      (hrest : Reads .template d rest tokens) :
      Reads .template d ('$' :: '\x7b' :: (code ++ '\x7d' :: rest))
        (⟨d, .interpolation⟩ :: (inner ++ ⟨d, .resumption⟩ :: tokens))

/-- A name, tested character by character. -/
lemma reads_name {d : Nat} {c : Char} {text rest : List Char} {tokens : List Token}
    (hname : (!c.isDigit && (c :: text).all isIdentifierChar) = true)
    (hend : rest.head?.any isIdentifierChar = false) (hrest : Reads .code d rest tokens) :
    Reads .code d (c :: (text ++ rest)) (⟨d, .name (c :: text)⟩ :: tokens) := by
  rw [Bool.and_eq_true, Bool.not_eq_true'] at hname
  refine .name hname.1 (List.all_eq_true.mp hname.2) ?_ hrest
  intro e he
  rw [Option.mem_def.mp he] at hend
  exact hend

/-- A single dot, with neither a dot nor a digit behind it. -/
lemma reads_dot {d : Nat} {rest : List Char} {tokens : List Token}
    (hend : rest.head?.any (fun c => c == '.' || c.isDigit) = false)
    (hrest : Reads .code d rest tokens) :
    Reads .code d ('.' :: rest) (⟨d, .dots 1⟩ :: tokens) := by
  refine @Reads.dots d 0 _ _ ?_ ?_ hrest
  · intro hdot
    rw [hdot] at hend
    exact absurd hend (by decide)
  · intro _ c hc
    rw [Option.mem_def.mp hc] at hend
    exact (Bool.or_eq_false_iff.mp hend).2

/-- A mark that cannot open a comment. -/
lemma reads_mark {d : Nat} {c : Char} {rest : List Char} {tokens : List Token}
    (hc : (!isGap c && !isQuote c && !isIdentifierChar c && c != '.' && c != '/')
      = true) (hrest : Reads .code d rest tokens) :
    Reads .code d (c :: rest) (⟨d, .mark c⟩ :: tokens) := by
  simp only [Bool.and_eq_true, Bool.not_eq_true', bne_iff_ne] at hc
  obtain ⟨⟨⟨⟨hgap, hquote⟩, hname⟩, hdot⟩, hslash⟩ := hc
  exact .mark ⟨hgap, hquote, hname, hdot⟩ (fun h => absurd h hslash) hrest

/-- Induction along the inside of a template, from one character or interpolation to the next. -/
@[elab_as_elim]
lemma Reads.template_induction {d : Nat}
    {motive : (text : List Char) → (tokens : List Token) → Reads .template d text tokens → Prop}
    (done : motive [] [] .done)
    (char : ∀ c rest tokens hquote hescape hopen hread, motive rest tokens hread →
      motive (c :: rest) tokens (.char hquote hescape hopen hread))
    (escape : ∀ c rest tokens hread, motive rest tokens hread →
      motive ('\\' :: c :: rest) tokens (.escape hread))
    (interpolation : ∀ code rest inner tokens hcode hclosed hread, motive rest tokens hread →
      motive ('$' :: '\x7b' :: (code ++ '\x7d' :: rest))
        (⟨d, .interpolation⟩ :: (inner ++ ⟨d, .resumption⟩ :: tokens))
        (.interpolation hcode hclosed hread))
    {text : List Char} {tokens : List Token} (h : Reads .template d text tokens) :
    motive text tokens h :=
  match h with
  | .done => done
  | .char hquote hescape hopen hread =>
    char _ _ _ hquote hescape hopen hread
      (hread.template_induction done char escape interpolation)
  | .escape hread =>
    escape _ _ _ hread (hread.template_induction done char escape interpolation)
  | .interpolation hcode hclosed hread =>
    interpolation _ _ _ _ hcode hclosed hread
      (hread.template_induction done char escape interpolation)
termination_by text.length
decreasing_by
  · simp only [List.length_cons]; omega
  · simp only [List.length_cons]; omega
  · simp only [List.length_cons, List.length_append]; omega

/-! ## Plain texts -/

/-- Is it a comment? -/
def Kind.isComment : Kind → Bool
  | .comment _ => true
  | _ => false

/-- The kinds of the tokens that are no comments, in order. -/
def significant (tokens : List Token) : List Kind :=
  (tokens.map (·.kind)).filter fun kind => !kind.isComment

/-- Is it a number? -/
def Kind.isNumber : Kind → Bool
  | .number _ => true
  | _ => false

/-- Is it made of characters that a number can run into? -/
def Kind.isRun : Kind → Bool
  | .number _ | .name _ | .dots _ => true
  | _ => false

/-- If it is a name, is it one of the scanner's? -/
def Kind.isAscii : Kind → Bool
  | .name chars => chars.all isNameChar
  | _ => true

/-- Characters that neither open nor close anything. -/
def isInner (c : Char) : Bool :=
  !isQuote c && c != '\x7b' && c != '\x7d'

/-- If it is a comment, is it without quotes and braces? -/
def Kind.isHarmless : Kind → Bool
  | .comment body => body.all isInner
  | _ => true

/-- Is it without backticks, as far as quoted texts and templates go? -/
def Kind.hasNoBacktick : Kind → Bool
  | .template => false
  | .quoted body => !body.contains backtick
  | _ => true

/-- Do lines end with a line feed, with or without a carriage return in front of it? -/
def hasPlainLines : List Char → Bool
  | [] => true
  | c :: rest =>
    (!isLineEnd c || c == '\n' || (c == '\r' && rest.head? == some '\n')) && hasPlainLines rest

/-- What can stand in a text that the scanner does not see as it is. -/
inductive Flaw where
  /-- A line that ends without a line feed. -/
  | lineEnd
  /-- A name with letters outside ASCII. -/
  | foreignName
  /-- A number next to a name, a dot or a number. -/
  | numberRun
  /-- A comment in an interpolation, with a quote or a brace in it. -/
  | commentQuote
  /-- A backtick in an interpolation of a template that itself stands in an interpolation. -/
  | nestedBacktick
  deriving DecidableEq, Repr

instance : Fintype Flaw where
  elems := {.lineEnd, .foreignName, .numberRun, .commentQuote, .nestedBacktick}
  complete flaw := by cases flaw <;> decide

/-- The text, which is read as the tokens, does not have the flaw. -/
def Flaw.Absent (text : List Char) (tokens : List Token) : Flaw → Prop
  | .lineEnd => hasPlainLines text = true
  | .foreignName => ∀ token ∈ tokens, token.kind.isAscii = true
  | .numberRun => (significant tokens).IsChain fun a b =>
      a.isRun = true → b.isRun = true → a.isNumber = false ∧ b.isNumber = false
  | .commentQuote => ∀ token ∈ tokens, 1 ≤ token.depth → token.kind.isHarmless = true
  | .nestedBacktick => ∀ token ∈ tokens, 2 ≤ token.depth → token.kind.hasNoBacktick = true

instance (text : List Char) (tokens : List Token) (flaw : Flaw) :
    Decidable (flaw.Absent text tokens) :=
  match flaw with
  | .lineEnd => inferInstanceAs (Decidable (_ = _))
  | .foreignName | .commentQuote | .nestedBacktick => inferInstanceAs (Decidable (∀ token ∈ tokens, _))
  | .numberRun => inferInstanceAs (Decidable (List.IsChain _ _))

/-- The texts in which the scanner sees the tokens that are there. -/
def Plain (text : List Char) (tokens : List Token) : Prop :=
  ∀ flaw : Flaw, flaw.Absent text tokens

namespace Plain

variable {text : List Char} {tokens : List Token}

/-- A plain text has plain lines. -/
lemma lines (h : Plain text tokens) : hasPlainLines text = true :=
  h .lineEnd

/-- All the names in a plain text are of ASCII. -/
lemma names (h : Plain text tokens) : ∀ token ∈ tokens, token.kind.isAscii = true :=
  h .foreignName

/-- In a plain text, of two runs that follow each other neither is a number. -/
lemma numbers (h : Plain text tokens) : (significant tokens).IsChain fun a b =>
    a.isRun = true → b.isRun = true → a.isNumber = false ∧ b.isNumber = false :=
  h .numberRun

/-- Inside of the interpolations of a plain text, all tokens are harmless. -/
lemma comments (h : Plain text tokens) :
    ∀ token ∈ tokens, 1 ≤ token.depth → token.kind.isHarmless = true :=
  h .commentQuote

/-- Inside of the nested interpolations of a plain text, no token has a backtick. -/
lemma templates (h : Plain text tokens) :
    ∀ token ∈ tokens, 2 ≤ token.depth → token.kind.hasNoBacktick = true :=
  h .nestedBacktick

end Plain

/-! ## Characters -/

/-- What is no character of a name is no digit. -/
lemma isDigit_of_isNameChar {c : Char} (h : isNameChar c = false) : c.isDigit = false := by
  simp only [isNameChar, Char.isAlphanum, Bool.or_eq_false_iff] at h
  exact h.1.1.2

/-- Names of the scanner are names. -/
lemma isIdentifierChar_of_isNameChar {c : Char} (h : isNameChar c = true) :
    isIdentifierChar c = true := by
  have hascii : c.toNat < 128 := by
    have := toNat_of_isNameChar h
    omega
  simp only [isIdentifierChar, Text.isWord, hascii, if_true]
  exact h

/-- What is no character of an identifier is no character of a name. -/
lemma isNameChar_of_isIdentifierChar {c : Char} (h : isIdentifierChar c = false) :
    isNameChar c = false := by
  by_contra hc
  rw [Bool.not_eq_false] at hc
  rw [isIdentifierChar_of_isNameChar hc] at h
  exact Bool.noConfusion h

/-- Digits and letters are characters of names. -/
lemma isNameChar_of_isDigitOrLetter {c : Char} (h : isDigitOrLetter c = true) :
    isNameChar c = true := by
  rw [isNameChar]
  rw [isDigitOrLetter] at h
  rw [h, Bool.true_or]

/-- The scanner's blanks stand between tokens. -/
lemma isGap_of_isSpace {c : Char} (h : isSpace c = true) : isGap c = true := by
  simp only [isSpace, Bool.or_eq_true, beq_iff_eq] at h
  rcases h with (((rfl | rfl) | rfl) | rfl) | rfl <;> decide

/-- What stands between tokens is no part of one. -/
lemma ne_of_isGap {c : Char} (h : isGap c = true) :
    isQuote c = false ∧ isNameChar c = false ∧ c ≠ '.' ∧ c ≠ '/' ∧ c ≠ '\x7b' ∧ c ≠ '\x7d' ∧
      c ≠ ',' := by
  have hname : isNameChar c = false := by
    simp only [isGap, Bool.or_eq_true, Bool.and_eq_true, beq_iff_eq] at h
    rcases h with h | h
    · exact isNameChar_of_isBlank h.1
    · by_contra hc
      rw [Bool.not_eq_false] at hc
      have := toNat_of_isNameChar hc
      omega
  refine ⟨?_, hname, ?_, ?_, ?_, ?_, ?_⟩
  · by_contra hq
    simp only [Bool.not_eq_false, isQuote, backtick, Bool.or_eq_true, beq_iff_eq] at hq
    rcases hq with (rfl | rfl) | rfl <;> exact absurd h (by decide)
  all_goals
    rintro rfl
    exact absurd h (by decide)

/-! ## Braces -/

/-- Braces are counted token by token. -/
lemma bracesAfter?_cons (count : Nat) (token : Token) (tokens : List Token) :
    bracesAfter? count (token :: tokens)
      = (token.kind.braces? count).bind fun count => bracesAfter? count tokens :=
  List.foldlM_cons

/-- Tokens other than braces leave the number of open braces as it is. -/
lemma bracesAfter?_cons_of_ne {token : Token} (hopen : token.kind ≠ .mark '\x7b')
    (hclose : token.kind ≠ .mark '\x7d') (count : Nat) (tokens : List Token) :
    bracesAfter? count (token :: tokens) = bracesAfter? count tokens := by
  rw [bracesAfter?_cons, Kind.braces?, if_neg hopen, if_neg hclose, Option.bind_some]

/-- Counting goes on where it stopped, also with more braces open. -/
lemma bracesAfter?_append {a b : Nat} {x : List Token} (h : bracesAfter? a x = some b) (more : Nat)
    (y : List Token) : bracesAfter? (a + more) (x ++ y) = bracesAfter? (b + more) y := by
  induction x generalizing a with
  | nil =>
    obtain rfl := Option.some.inj h
    rfl
  | cons token x ih =>
    rw [bracesAfter?_cons] at h
    obtain ⟨count, hcount, hx⟩ := Option.bind_eq_some_iff.mp h
    have hmore : token.kind.braces? (a + more) = some (count + more) := by
      unfold Kind.braces? at hcount ⊢
      split at hcount
      · obtain rfl := Option.some.inj hcount
        simp only [*, if_true, Option.some.injEq]
        omega
      · split at hcount
        · split at hcount
          · simp at hcount
          · obtain rfl := Option.some.inj hcount
            rename_i hopen hclose ha
            rw [if_neg hopen, if_pos hclose, if_neg (by omega)]
            exact congrArg some (by omega)
        · obtain rfl := Option.some.inj hcount
          rename_i hopen hclose
          rw [if_neg hopen, if_neg hclose]
    rw [List.cons_append, bracesAfter?_cons, hmore, Option.bind_some]
    exact ih hx

/-! ## Parts of plain texts -/

/-- Of no tokens, none is significant. -/
@[simp] lemma significant_nil : significant [] = [] := rfl

/-- The significant ones of two lists of tokens, one after the other. -/
lemma significant_append (a b : List Token) : significant (a ++ b) = significant a ++ significant b := by
  simp [significant]

/-- A token is significant unless it is a comment. -/
lemma significant_cons (token : Token) (tokens : List Token) :
    significant (token :: tokens)
      = if token.kind.isComment then significant tokens else token.kind :: significant tokens := by
  cases h : token.kind.isComment <;> simp [significant, h]

/-- The end of a text with plain lines has plain lines. -/
lemma hasPlainLines_suffix {text rest : List Char} (h : hasPlainLines text = true)
    (hrest : rest <:+ text) : hasPlainLines rest = true := by
  obtain ⟨left, rfl⟩ := hrest
  induction left with
  | nil => exact h
  | cons c left ih =>
    rw [List.cons_append, hasPlainLines, Bool.and_eq_true] at h
    exact ih h.2

/-- The beginning of a text has plain lines, unless it ends in front of a line feed. -/
lemma hasPlainLines_left {text rest : List Char} (h : hasPlainLines (text ++ rest) = true)
    (hrest : rest.head? ≠ some '\n') : hasPlainLines text = true := by
  induction text with
  | nil => rfl
  | cons c text ih =>
    rw [List.cons_append, hasPlainLines, Bool.and_eq_true] at h
    rw [hasPlainLines, ih h.2, Bool.and_true]
    cases text with
    | nil =>
      have hnone : (rest.head? == some '\n') = false := by simpa using hrest
      simpa [hnone] using h.1
    | cons d text => exact h.1

/-- A part of a plain text is plain, unless it is cut off in front of a line feed. -/
lemma Plain.part {text part : List Char} {tokens inner : List Token} (h : Plain text tokens)
    (left right : List Char) (htext : text = left ++ part ++ right)
    (hright : right.head? ≠ some '\n') (htokens : inner <:+: tokens) : Plain part inner := by
  have hmem : ∀ token ∈ inner, token ∈ tokens := fun token htoken => htokens.subset htoken
  intro flaw
  cases flaw with
  | lineEnd =>
    refine hasPlainLines_left (hasPlainLines_suffix h.lines ?_) hright
    exact ⟨left, by simp [htext]⟩
  | foreignName => exact fun token ht => h.names token (hmem token ht)
  | numberRun =>
    obtain ⟨x, y, rfl⟩ := htokens
    have hchain := h.numbers
    rw [significant_append, significant_append] at hchain
    exact hchain.left_of_append.right_of_append
  | commentQuote => exact fun token ht => h.comments token (hmem token ht)
  | nestedBacktick => exact fun token ht => h.templates token (hmem token ht)

/-- The rest of a plain text is plain. -/
lemma Plain.rest {text rest : List Char} {tokens inner : List Token} (h : Plain text tokens)
    (left : List Char) (htext : text = left ++ rest) (htokens : inner <:+: tokens) :
    Plain rest inner :=
  h.part left [] (by simpa using htext) (by simp) htokens

/-! ## The first token -/

section First

variable {d : Nat} {c : Char} {rest : List Char} {tokens : List Token}

/-- What a first character stands for. -/
lemma Reads.cons_cases (h : Reads .code d (c :: rest) tokens) :
    isGap c = true ∨ c = '/' ∨ isQuote c = true ∨
      (∃ number tokens', tokens = ⟨d, .number number⟩ :: tokens' ∧ (c.isDigit = true ∨ c = '.')) ∨
      (∃ text after tokens', tokens = ⟨d, .name (c :: text)⟩ :: tokens' ∧
        isIdentifierChar c = true ∧ c.isDigit = false ∧ rest = text ++ after ∧
        (∀ e ∈ after.head?, isIdentifierChar e = false) ∧ Reads .code d after tokens') ∨
      (∃ count after tokens', tokens = ⟨d, .dots (count + 1)⟩ :: tokens' ∧ c = '.' ∧
        rest = List.replicate count '.' ++ after ∧ Reads .code d after tokens') ∨
      (∃ tokens', tokens = ⟨d, .mark c⟩ :: tokens' ∧ IsMark c) := by
  generalize htext : c :: rest = text at h
  cases h with
  | nil => simp at htext
  | gap hc =>
    obtain ⟨rfl, -⟩ := List.cons.inj htext
    exact .inl hc
  | lineComment => exact .inr (.inl (List.cons.inj htext).1)
  | blockComment => exact .inr (.inl (List.cons.inj htext).1)
  | quoted hquote =>
    obtain ⟨rfl, -⟩ := List.cons.inj htext
    exact .inr (.inr (.inl (by rcases hquote with rfl | rfl <;> decide)))
  | number hnumber =>
    refine .inr (.inr (.inr (.inl ⟨_, _, rfl, ?_⟩)))
    cases hnumber with
    | whole hc => exact .inl ((List.cons.inj htext).1 ▸ hc)
    | decimal hc => exact .inl ((List.cons.inj htext).1 ▸ hc)
    | fraction => exact .inr (List.cons.inj htext).1
  | name hdigit hname hend hrest =>
    obtain ⟨rfl, rfl⟩ := List.cons.inj htext
    exact .inr (.inr (.inr (.inr (.inl ⟨_, _, _, rfl, hname c (by simp), hdigit, rfl, hend, hrest⟩))))
  | dots hend _ hrest =>
    obtain ⟨rfl, rfl⟩ := List.cons.inj htext
    exact .inr (.inr (.inr (.inr (.inr (.inl ⟨_, _, _, rfl, rfl, rfl, hrest⟩)))))
  | mark hc =>
    obtain ⟨rfl, -⟩ := List.cons.inj htext
    exact .inr (.inr (.inr (.inr (.inr (.inr ⟨_, rfl, hc⟩)))))
  | template =>
    obtain ⟨rfl, -⟩ := List.cons.inj htext
    exact .inr (.inr (.inl (by decide)))

/-- A colon is a mark. -/
lemma Reads.cons_colon (h : Reads .code d (':' :: rest) tokens) :
    ∃ tokens', tokens = ⟨d, .mark ':'⟩ :: tokens' := by
  rcases h.cons_cases with hc | hc | hc | ⟨_, _, _, hc⟩ | ⟨_, _, _, _, hc, _⟩ | ⟨_, _, _, _, hc, _⟩ |
    ⟨tokens', rfl, -⟩
  · exact absurd hc (by decide)
  · exact absurd hc (by decide)
  · exact absurd hc (by decide)
  · exact absurd hc (by decide)
  · exact absurd hc (by decide)
  · exact absurd hc (by decide)
  · exact ⟨tokens', rfl⟩

/-- A dot starts a run of dots or a number. -/
lemma Reads.cons_dot (h : Reads .code d ('.' :: rest) tokens) :
    (∃ number tokens', tokens = ⟨d, .number number⟩ :: tokens') ∨
      ∃ count after tokens', tokens = ⟨d, .dots (count + 1)⟩ :: tokens' ∧
        rest = List.replicate count '.' ++ after ∧ Reads .code d after tokens' := by
  rcases h.cons_cases with hc | hc | hc | ⟨number, tokens', rfl, -⟩ | ⟨_, _, _, _, hc, _⟩ |
    ⟨count, after, tokens', rfl, -, hrest, hafter⟩ | ⟨_, _, hc⟩
  · exact absurd hc (by decide)
  · exact absurd hc (by decide)
  · exact absurd hc (by decide)
  · exact .inl ⟨number, tokens', rfl⟩
  · exact absurd hc (by decide)
  · exact .inr ⟨count, after, tokens', rfl, hrest, hafter⟩
  · exact absurd rfl hc.not_dot

/-- A name character starts a name or a number. -/
lemma Reads.cons_name (hname : isNameChar c = true) (h : Reads .code d (c :: rest) tokens) :
    (∃ number tokens', tokens = ⟨d, .number number⟩ :: tokens') ∨
      ∃ text after tokens', tokens = ⟨d, .name (c :: text)⟩ :: tokens' ∧ c.isDigit = false ∧
        rest = text ++ after ∧ (∀ e ∈ after.head?, isIdentifierChar e = false) ∧
        Reads .code d after tokens' := by
  rcases h.cons_cases with hc | rfl | hc | ⟨number, tokens', rfl, -⟩ |
    ⟨text, after, tokens', rfl, -, hread⟩ | ⟨_, _, _, _, rfl, _⟩ | ⟨_, _, hc⟩
  · rw [(ne_of_isGap hc).2.1] at hname
    exact Bool.noConfusion hname
  · exact absurd hname (by decide)
  · simp only [isQuote, backtick, Bool.or_eq_true, beq_iff_eq] at hc
    rcases hc with (rfl | rfl) | rfl <;> exact absurd hname (by decide)
  · exact .inl ⟨number, tokens', rfl⟩
  · exact .inr ⟨text, after, tokens', rfl, hread⟩
  · exact absurd hname (by decide)
  · rw [isNameChar_of_isIdentifierChar hc.not_identifier] at hname
    exact Bool.noConfusion hname

end First

/-! ## Reading past blanks and comments -/

/-- Past a line comment the scanner stands at the line feed. In front of it the comment may have left
a carriage return. -/
lemma afterLine_comment {body rest : List Char} (hbody : ∀ c ∈ body, isLineEnd c = false)
    (hend : ∀ c ∈ rest.head?, isLineEnd c = true) (hlines : hasPlainLines rest = true) :
    afterLine (body ++ rest) = rest ∨
      ∃ after, rest = '\r' :: '\n' :: after ∧ afterLine (body ++ rest) = '\n' :: after := by
  have hskip : afterLine (body ++ rest) = afterLine rest := by
    refine List.dropWhile_append_of_pos fun c hc => ?_
    rw [bne_iff_ne]
    rintro rfl
    exact absurd (hbody _ hc) (by decide)
  rw [hskip]
  cases rest with
  | nil => exact .inl rfl
  | cons c rest =>
    have hc : c = '\n' ∨ c = '\r' ∧ rest.head? = some '\n' := by
      rw [hasPlainLines, Bool.and_eq_true] at hlines
      simpa [hend c rfl] using hlines.1
    rcases hc with rfl | ⟨rfl, hhead⟩
    · exact .inl (by simp [afterLine])
    · obtain ⟨after, rfl⟩ := List.head?_eq_some_iff.mp hhead
      exact .inr ⟨after, rfl, by simp [afterLine]⟩

/-- The scanner finds the end of a block comment. -/
lemma afterBlock?_comment {body rest : List Char} (hbody : ¬ ['*', '/'] <:+: body) :
    afterBlock? (body ++ '*' :: '/' :: rest) = some rest := by
  induction body with
  | nil => rfl
  | cons c body ih =>
    have htail : ¬ ['*', '/'] <:+: body := fun h => hbody (h.trans (List.suffix_cons c body).isInfix)
    rw [List.cons_append, afterBlock?]
    · exact ih htail
    · rintro after rfl hafter
      cases body with
      | nil => simp at hafter
      | cons e body =>
        obtain ⟨rfl, -⟩ := List.cons.inj hafter
        exact hbody ⟨[], body, rfl⟩

/-- A text that starts with neither a blank nor a comment has no trivia in front. -/
lemma skipTrivia_cons {c : Char} {rest : List Char} (hspace : isSpace c = false)
    (hcomment : c = '/' → rest.head? ≠ some '/' ∧ rest.head? ≠ some '*') :
    skipTrivia (c :: rest) = c :: rest := by
  rw [skipTrivia]
  · simp [hspace]
  · rintro line rfl rfl
    simp at hcomment
  · rintro block rfl rfl
    simp at hcomment

/-- A blank is passed over. -/
lemma skipTrivia_space {c : Char} {rest : List Char} (hspace : isSpace c = true) :
    skipTrivia (c :: rest) = skipTrivia rest := by
  rw [skipTrivia]
  · simp [hspace]
  · rintro line rfl
    exact absurd hspace (by decide)
  · rintro block rfl
    exact absurd hspace (by decide)

/-- What is no gap is no blank. -/
lemma isSpace_of_isGap {c : Char} (h : isGap c = false) : isSpace c = false := by
  by_contra hc
  rw [Bool.not_eq_false] at hc
  rw [isGap_of_isSpace hc] at h
  exact Bool.noConfusion h

/-- Characters of identifiers are no blanks. -/
lemma isSpace_of_isIdentifierChar {c : Char} (h : isIdentifierChar c = true) : isSpace c = false := by
  by_contra hc
  simp only [Bool.not_eq_false, isSpace, Bool.or_eq_true, beq_iff_eq] at hc
  rcases hc with (((rfl | rfl) | rfl) | rfl) | rfl <;> exact absurd h (by decide)

/-- Characters of names are no blanks. -/
lemma isSpace_of_isNameChar {c : Char} (h : isNameChar c = true) : isSpace c = false :=
  isSpace_of_isIdentifierChar (isIdentifierChar_of_isNameChar h)

/-- A number starts with a digit or a dot. -/
lemma IsNumber.head {text : List Char} (h : IsNumber text) :
    ∃ c tail, text = c :: tail ∧ (c.isDigit = true ∨ c = '.') := by
  cases h with
  | whole hc => exact ⟨_, _, rfl, .inl hc⟩
  | decimal hc => exact ⟨_, _, rfl, .inl hc⟩
  | fraction => exact ⟨_, _, rfl, .inr rfl⟩

/-- Digits are characters of names. -/
lemma isNameChar_of_isDigit {c : Char} (h : c.isDigit = true) : isNameChar c = true := by
  simp [isNameChar, Char.isAlphanum, h]

/-- **What follows blanks and comments is read as the same tokens.** -/
lemma Reads.skipTrivia {d : Nat} {text : List Char} {tokens : List Token}
    (h : Reads .code d text tokens) (hlines : hasPlainLines text = true) :
    ∃ tokens', Reads .code d (Code.skipTrivia text) tokens' ∧
      significant tokens' = significant tokens ∧ tokens' <:+ tokens := by
  -- a text that starts with a token other than a comment stays as it is
  have hstays : ∀ {d c rest tokens}, Reads .code d (c :: rest) tokens → isSpace c = false →
      (c = '/' → rest.head? ≠ some '/' ∧ rest.head? ≠ some '*') →
      ∃ tokens', Reads .code d (Code.skipTrivia (c :: rest)) tokens' ∧
        significant tokens' = significant tokens ∧ tokens' <:+ tokens := by
    intro d c rest tokens hread hspace hcomment
    rw [skipTrivia_cons hspace hcomment]
    exact ⟨tokens, hread, rfl, List.suffix_refl _⟩
  generalize hmode : Mode.code = mode at h
  induction h with
  | nil => exact ⟨[], by simpa [Code.skipTrivia] using Reads.nil, rfl, List.suffix_refl _⟩
  | @gap d c rest tokens hc hrest ih =>
    by_cases hspace : isSpace c = true
    · rw [skipTrivia_space hspace]
      exact ih (hasPlainLines_suffix hlines (List.suffix_cons c rest)) rfl
    · exact hstays (.gap hc hrest) (by simpa using hspace)
        fun h => absurd h (ne_of_isGap hc).2.2.2.1
  | @lineComment d body rest tokens hbody hend hinside hrest ih =>
    have hlines' : hasPlainLines rest = true :=
      hasPlainLines_suffix hlines ⟨'/' :: '/' :: body, by simp⟩
    have hskip : Code.skipTrivia ('/' :: '/' :: (body ++ rest)) = Code.skipTrivia rest := by
      rw [Code.skipTrivia]
      rcases afterLine_comment hbody hend hlines' with heq | ⟨after, hrest, heq⟩
      · rw [heq]
      · rw [heq, hrest, skipTrivia_space (show isSpace '\r' = true by decide)]
    obtain ⟨tokens', hread, hsame, hsuffix⟩ := ih hlines' rfl
    rw [hskip]
    refine ⟨tokens', hread, ?_, hsuffix.trans (List.suffix_cons _ _)⟩
    rw [hsame, significant_cons]
    rfl
  | @blockComment d body rest tokens hbody hrest ih =>
    have hlines' : hasPlainLines rest = true :=
      hasPlainLines_suffix hlines ⟨'/' :: '*' :: (body ++ ['*', '/']), by simp⟩
    have hskip : Code.skipTrivia ('/' :: '*' :: (body ++ '*' :: '/' :: rest))
        = Code.skipTrivia rest := by
      rw [Code.skipTrivia, afterBlock, afterBlock?_comment hbody, Option.getD_some]
    obtain ⟨tokens', hread, hsame, hsuffix⟩ := ih hlines' rfl
    rw [hskip]
    refine ⟨tokens', hread, ?_, hsuffix.trans (List.suffix_cons _ _)⟩
    rw [hsame, significant_cons]
    rfl
  | @quoted d quote body rest tokens hquote hbody hrest ih =>
    refine hstays (.quoted hquote hbody hrest) ?_ ?_
    · rcases hquote with rfl | rfl <;> decide
    · rintro rfl
      exact absurd hquote (by decide)
  | @number d text rest tokens htext hend hdot hrest ih =>
    obtain ⟨c, tail, rfl, hc⟩ := htext.head
    refine hstays (.number htext hend hdot hrest) ?_ ?_
    · rcases hc with hc | rfl
      · exact isSpace_of_isNameChar (isNameChar_of_isDigit hc)
      · decide
    · rintro rfl
      exact absurd hc (by decide)
  | @name d c text rest tokens hdigit htext hend hrest ih =>
    have hc : isIdentifierChar c = true := htext c (by simp)
    refine hstays (.name hdigit htext hend hrest) (isSpace_of_isIdentifierChar hc) ?_
    rintro rfl
    exact absurd hc (by decide)
  | @dots d count rest tokens hend hdigit hrest ih =>
    exact hstays (.dots hend hdigit hrest) (by decide) fun h => absurd h (by decide)
  | @mark d c rest tokens hc hcomment hrest ih =>
    exact hstays (.mark hc hcomment hrest) (isSpace_of_isGap hc.not_gap) hcomment
  | @template d body rest inner tokens hbody hrest ihbody ih =>
    exact hstays (.template hbody hrest) (by decide) fun h => absurd h (by decide)
  | done => simp at hmode
  | char => simp at hmode
  | escape => simp at hmode
  | interpolation => simp at hmode

end CachedRoutes.Code
