import CachedRoutes.Code.Input
import CachedRoutes.Proofs.Code.Bracket
import CachedRoutes.Proofs.Code.Trivia

/-!
# Names that the search for request input lets pass

The search for request input goes through the arguments of a query and stops at the first name whose
value can differ from request to request. Here its verdict is compared with the tokens of the text.

* **Fixed names** (`FixedName`): members, object keys, literals and route parameters, by the tokens in
  front of the name and behind it.
* **One token after the other** (`requestInput?_space` to `requestInput?_mark`): what the search does
  with each kind of token.
* **All names pass for a reason** (`Reads.allFixed`): where the search finds nothing in a plain
  text, every name in it is fixed, at any depth.
-/

namespace CachedRoutes.Code

/-- Why a name has one value under one key, given the token in front of it and those behind it. -/
inductive FixedName (known : KeyedInput) : Option Kind → List Char → List Kind → Prop where
  /-- It is a member name. -/
  | member {name : List Char} {after : List Kind} : FixedName known (some (.dots 1)) name after
  /-- It is an object key. -/
  | key {c : Char} {name : List Char} {after : List Kind} (hc : c = '\x7b' ∨ c = ',') :
      FixedName known (some (.mark c)) name (.mark ':' :: after)
  /-- It is a literal. -/
  | literal {before : Option Kind} {name : List Char} {after : List Kind}
      (hname : name ∈ literalNames) : FixedName known before name after
  /-- A route parameter is read from it. -/
  | parameter {before : Option Kind} {parameter : List Char} {after : List Kind}
      (hparameter : parameter ∈ known.parameters) :
      FixedName known before known.holder (.dots 1 :: .name parameter :: after)

/-- More tokens behind do not matter. -/
lemma FixedName.append {known : KeyedInput} {before : Option Kind} {name : List Char}
    {after : List Kind} (h : FixedName known before name after) (more : List Kind) :
    FixedName known before name (after ++ more) := by
  cases h with
  | member => exact .member
  | key hc => exact .key hc
  | literal hname => exact .literal hname
  | parameter hparameter => exact .parameter hparameter

/-- Every name among the kinds is fixed, `before` being the token in front of them. -/
def AllFixed (known : KeyedInput) : Option Kind → List Kind → Prop
  | _, [] => True
  | before, kind :: after =>
    (∀ name, kind = .name name → FixedName known before name after) ∧
      AllFixed known (some kind) after

/-- Two runs of tokens are fixed if they are, with a token between them that is no name. -/
lemma AllFixed.append {known : KeyedInput} {before : Option Kind} {a b : List Kind} {kind : Kind}
    (ha : AllFixed known before a) (hkind : ∀ name, kind ≠ .name name)
    (hb : AllFixed known (some kind) b) : AllFixed known before (a ++ kind :: b) := by
  induction a generalizing before with
  | nil => exact ⟨fun name hname => absurd hname (hkind name), hb⟩
  | cons first a ih => exact ⟨fun name hname => (ha.1 name hname).append _, ih ha.2⟩

/-- All names are fixed if the first token is and those behind it are. -/
lemma allFixed_cons {known : KeyedInput} {before : Option Kind} {d : Nat} {kind : Kind}
    {tokens : List Token} (hkind : kind.isComment = false)
    (hname : ∀ name, kind = .name name → FixedName known before name (significant tokens))
    (hrest : AllFixed known (some kind) (significant tokens)) :
    AllFixed known before (significant (⟨d, kind⟩ :: tokens)) := by
  rw [significant_cons, if_neg (by simp [hkind])]
  exact ⟨hname, hrest⟩

/-- Each name by itself. -/
lemma AllFixed.fixedName {known : KeyedInput} {first : Option Kind} {before after : List Kind}
    {name : List Char} (h : AllFixed known first (before ++ .name name :: after)) :
    FixedName known (before.getLast?.or first) name after := by
  induction before generalizing first with
  | nil => exact h.1 name rfl
  | cons kind before ih =>
    have hlast : ((kind :: before).getLast?).or first = before.getLast?.or (some kind) := by
      rw [List.getLast?_cons]
      cases before.getLast? <;> rfl
    rw [hlast]
    exact ih h.2

/-! ## The search, one token after the other -/

alias requestInput?_line := requestInput?.eq_2

alias requestInput?_block := requestInput?.eq_3

section Steps

variable {known : KeyedInput} {context : Context} {c : Char} {rest : List Char}

/-- A blank is passed over. -/
lemma requestInput?_space (hc : isSpace c = true) :
    requestInput? known context (c :: rest) = requestInput? known context rest := by
  rw [requestInput?]
  · rw [if_pos hc]
  · rintro line rfl
    exact absurd hc (by decide)
  · rintro block rfl
    exact absurd hc (by decide)

/-- A backtick starts a template. -/
lemma requestInput?_template :
    requestInput? known context (backtick :: rest) = templateInput? known rest := by
  rw [requestInput?]
  · rw [if_neg (by decide), if_pos rfl]
  · rintro line h
    exact absurd h (by decide)
  · rintro block h
    exact absurd h (by decide)

/-- Behind a quote that is not closed there is nothing to find. -/
lemma requestInput?_quote (hc : c = '\x27' ∨ c = '\x22') :
    requestInput? known context (c :: rest)
      = (afterQuoted? c rest).bind (requestInput? known .plain) := by
  have hspace : isSpace c = false := by rcases hc with rfl | rfl <;> decide
  have hbacktick : c ≠ backtick := by rcases hc with rfl | rfl <;> decide
  have hquote : isQuote c = true := by rcases hc with rfl | rfl <;> decide
  rw [requestInput?]
  · rw [if_neg (by simp [hspace]), if_neg hbacktick, if_pos hquote]
    split
    · rename_i found hfound
      rw [hfound, Option.bind_some]
    · rename_i hnone
      rw [hnone, Option.bind_none]
  · rintro line rfl
    exact absurd hc (by decide)
  · rintro block rfl
    exact absurd hc (by decide)

/-- A quoted text is passed over. -/
lemma requestInput?_quoted (hc : c = '\x27' ∨ c = '\x22') {after : List Char}
    (hafter : afterQuoted? c rest = some after) :
    requestInput? known context (c :: rest) = requestInput? known .plain after := by
  rw [requestInput?_quote hc, hafter, Option.bind_some]

/-- What a name character is not. -/
lemma isNameChar_cases (hc : isNameChar c = true) :
    isSpace c = false ∧ c ≠ backtick ∧ isQuote c = false ∧ c ≠ '/' := by
  have hquote := (isInner_iff.mp (isInner_of_isIdentifierChar (isIdentifierChar_of_isNameChar hc))).1
  refine ⟨isSpace_of_isNameChar hc, ?_, hquote, ?_⟩
  · rintro rfl
    exact absurd hc (by decide)
  · rintro rfl
    exact absurd hc (by decide)

/-- A number is passed over, and leaves its context. -/
lemma requestInput?_number (hc : c.isDigit = true) :
    requestInput? known context (c :: rest)
      = requestInput? known (.afterNumber (c :: rest.takeWhile isNumberChar))
          (rest.dropWhile isNumberChar) := by
  obtain ⟨hspace, hbacktick, hquote, hslash⟩ := isNameChar_cases (isNameChar_of_isDigit hc)
  rw [requestInput?]
  · rw [if_neg (by simp [hspace]), if_neg hbacktick, if_neg (by simp [hquote]), if_pos hc]
  · rintro line rfl
    exact absurd rfl hslash
  · rintro block rfl
    exact absurd rfl hslash

/-- Dots are passed over together, and leave their context. -/
lemma requestInput?_dot :
    requestInput? known context ('.' :: rest)
      = requestInput? known (.afterDots rest (rest.dropWhile (· == '.')))
          (rest.dropWhile (· == '.')) := by
  rw [requestInput?]
  · rw [if_neg (by decide), if_neg (by decide), if_neg (by decide), if_neg (by decide),
      if_neg (by decide), if_pos rfl]
  · rintro line h
    exact absurd h (by decide)
  · rintro block h
    exact absurd h (by decide)

/-- A mark is passed over, and leaves its context. -/
lemma requestInput?_mark (hspace : isSpace c = false) (hquote : isQuote c = false)
    (hname : isNameChar c = false) (hdot : c ≠ '.')
    (hcomment : c = '/' → rest.head? ≠ some '/' ∧ rest.head? ≠ some '*') :
    requestInput? known context (c :: rest) = requestInput? known (.afterMark c) rest := by
  have hbacktick : c ≠ backtick := by
    rintro rfl
    exact absurd hquote (by decide)
  rw [requestInput?]
  · rw [if_neg (by simp [hspace]), if_neg hbacktick, if_neg (by simp [hquote]),
      if_neg (by simp [isDigit_of_isNameChar hname]), if_neg (by simp [hname]), if_neg hdot]
  · rintro line rfl rfl
    simp at hcomment
  · rintro block rfl rfl
    simp at hcomment

/-- What the search does with a name. -/
lemma requestInput?_name_eq {text : List Char} (hc : isNameChar c = true)
    (hdigit : c.isDigit = false) (htext : ∀ e ∈ text, isNameChar e = true)
    (hend : ∀ e ∈ rest.head?, isNameChar e = false) :
    requestInput? known context (c :: (text ++ rest))
      = if context = .member || (context = .entry && (skipTrivia rest).head? == some ':')
            || literalNames.contains (c :: text) then
          requestInput? known .plain rest
        else if c :: text = known.holder && (skipTrivia rest).head? == some '.' then
          let segment := skipTrivia ((skipTrivia rest).drop 1)
          if known.parameters.contains (segment.takeWhile isNameChar) then
            requestInput? known .plain (segment.dropWhile isNameChar)
          else some (Text.upTo (c :: (text ++ rest)) (segment.dropWhile isNameChar))
        else some (c :: text) := by
  obtain ⟨hspace, hbacktick, hquote, hslash⟩ := isNameChar_cases hc
  have htake : (text ++ rest).takeWhile isNameChar = text := takeWhile_run htext hend
  have hdrop : (text ++ rest).dropWhile isNameChar = rest := dropWhile_run htext hend
  rw [requestInput?]
  · rw [if_neg (by simp [hspace]), if_neg hbacktick, if_neg (by simp [hquote]),
      if_neg (by simp [hdigit]), if_pos hc]
    simp only [htake, hdrop]
  · rintro line rfl
    exact absurd rfl hslash
  · rintro block rfl
    exact absurd rfl hslash

/-- A name passes as a member, a key or a literal, or as the holder of a known parameter. -/
lemma requestInput?_name {text : List Char} (hc : isNameChar c = true) (hdigit : c.isDigit = false)
    (htext : ∀ e ∈ text, isNameChar e = true) (hend : ∀ e ∈ rest.head?, isNameChar e = false)
    (h : requestInput? known context (c :: (text ++ rest)) = none) :
    ((context = .member ∨ (context = .entry ∧ (skipTrivia rest).head? = some ':') ∨
        c :: text ∈ literalNames) ∧ requestInput? known .plain rest = none) ∨
    (c :: text = known.holder ∧ ∃ dotted, skipTrivia rest = '.' :: dotted ∧
      (skipTrivia dotted).takeWhile isNameChar ∈ known.parameters ∧
      requestInput? known .plain ((skipTrivia dotted).dropWhile isNameChar) = none) := by
  rw [requestInput?_name_eq hc hdigit htext hend] at h
  split at h
  · rename_i hpass
    refine .inl ⟨?_, h⟩
    simpa [or_assoc] using hpass
  · split at h
    · rename_i hholder
      rw [Bool.and_eq_true, decide_eq_true_eq, beq_iff_eq] at hholder
      obtain ⟨dotted, hdotted⟩ := List.head?_eq_some_iff.mp hholder.2
      rw [hdotted] at h
      simp only [List.drop_succ_cons, List.drop_zero] at h
      split at h
      · rename_i hknown
        exact .inr ⟨hholder.1, dotted, hdotted, by simpa using hknown, h⟩
      · simp at h
    · simp at h

/-- The name of a member is passed over, whatever it is. -/
lemma requestInput?_member {text : List Char} (hc : isNameChar c = true)
    (hdigit : c.isDigit = false) (htext : ∀ e ∈ text, isNameChar e = true)
    (hend : ∀ e ∈ rest.head?, isNameChar e = false) :
    requestInput? known .member (c :: (text ++ rest)) = requestInput? known .plain rest := by
  rw [requestInput?_name_eq hc hdigit htext hend]
  simp

/-- Blanks and comments do not matter. -/
lemma requestInput?_skipTrivia (known : KeyedInput) (context : Context) (text : List Char) :
    requestInput? known context (skipTrivia text) = requestInput? known context text := by
  fun_induction skipTrivia text with
  | case1 => rfl
  | case2 line ih => rw [ih, requestInput?_line]
  | case3 block ih => rw [ih, requestInput?_block]
  | case4 c rest _ _ hc ih => rw [ih, requestInput?_space hc]
  | case5 => rfl

/-! ## Templates -/

/-- A backtick closes the template, and code follows. -/
lemma templateInput?_close : templateInput? known (backtick :: rest)
    = requestInput? known .plain rest := by
  rw [templateInput?]
  · rw [if_pos rfl]
  · rintro e after h
    exact absurd h (by decide)
  · rintro inner h
    exact absurd h (by decide)

/-- A character that means nothing in a template is passed over. -/
lemma templateInput?_char (hquote : c ≠ backtick) (hescape : c ≠ '\\')
    (hopen : c = '$' → rest.head? ≠ some '\x7b') :
    templateInput? known (c :: rest) = templateInput? known rest := by
  rw [templateInput?]
  · rw [if_neg hquote]
  · rintro e after rfl
    exact absurd rfl hescape
  · rintro inner rfl rfl
    simp at hopen

/-- The code of an interpolation is searched first. -/
lemma templateInput?_closed {inner after : List Char} (hafter : afterBrace? 0 inner = some after) :
    templateInput? known ('$' :: '\x7b' :: inner)
      = (requestInput? known .plain (interpolated inner after)).or (templateInput? known after) := by
  rw [templateInput?]
  split
  · rename_i found hfound
    rw [hafter] at hfound
    obtain rfl := Option.some.inj hfound
    cases requestInput? known .plain (interpolated inner after) <;> rfl
  · rename_i hnone
    rw [hafter] at hnone
    simp at hnone

/-- An interpolation that is not closed goes on to the end of the text. -/
lemma templateInput?_unclosed {inner : List Char} (hafter : afterBrace? 0 inner = none) :
    templateInput? known ('$' :: '\x7b' :: inner) = requestInput? known .plain inner := by
  rw [templateInput?]
  split
  · rename_i found hfound
    rw [hafter] at hfound
    simp at hfound
  · rfl

/-- An interpolation passes if its code does, and then the rest of the template counts. -/
lemma templateInput?_interpolation {inner : List Char} {after : List Char}
    (hafter : afterBrace? 0 inner = some after)
    (h : templateInput? known ('$' :: '\x7b' :: inner) = none) :
    requestInput? known .plain (interpolated inner after) = none ∧
      templateInput? known after = none := by
  rw [templateInput?_closed hafter] at h
  exact Option.or_eq_none_iff.mp h

/-- The code of an interpolation stands in front of its closing brace. -/
lemma interpolated_append (code rest : List Char) :
    interpolated (code ++ '\x7d' :: rest) rest = code := by
  have hlength : (code ++ '\x7d' :: rest).length - rest.length - 1 = code.length := by
    rw [List.length_append, List.length_cons]
    omega
  rw [interpolated, hlength, List.take_left]

end Steps

/-! ## Tokens -/

/-- The context suits the token in front, as far as a name follows. -/
def Suits (context : Context) (before : Option Kind) (kinds : List Kind) : Prop :=
  ∀ name after, kinds = .name name :: after →
    (context = .member → before = some (.dots 1)) ∧
      (context = .entry → ∃ c, before = some (.mark c) ∧ (c = '\x7b' ∨ c = ','))

/-- The ordinary context suits any tokens. -/
lemma suits_plain (before : Option Kind) (kinds : List Kind) : Suits .plain before kinds := by
  intro name after _
  exact ⟨fun h => by simp at h, fun h => by simp at h⟩

/-- Of a token and the next one, neither is a number if both are runs. -/
lemma Plain.neighbours {text : List Char} {d : Nat} {kind next : Kind} {tokens : List Token}
    {after : List Kind} (h : Plain text (⟨d, kind⟩ :: tokens)) (hkind : kind.isComment = false)
    (hafter : significant tokens = next :: after) (hrun : kind.isRun = true)
    (hnext : next.isRun = true) : kind.isNumber = false ∧ next.isNumber = false := by
  have hchain := h.numbers
  rw [significant_cons, if_neg (by simp [hkind]), hafter] at hchain
  exact (List.isChain_cons_cons.mp hchain).1 hrun hnext

/-- No run follows a number. -/
lemma Plain.not_run_of_number {text number : List Char} {d : Nat} {tokens : List Token}
    (h : Plain text (⟨d, .number number⟩ :: tokens)) {next : Kind} {after : List Kind}
    (hafter : significant tokens = next :: after) : next.isRun = false := by
  by_contra hrun
  rw [Bool.not_eq_false] at hrun
  exact absurd (h.neighbours rfl hafter rfl hrun).1 (by simp [Kind.isNumber])

/-- What follows a number does not go on with number characters. -/
lemma Reads.not_numberChar {text number rest : List Char} {d : Nat} {tokens : List Token}
    (h : Reads .code d rest tokens) (hplain : Plain text (⟨d, .number number⟩ :: tokens))
    (hend : ∀ c ∈ rest.head?, isDigitOrLetter c = false) :
    ∀ c ∈ rest.head?, isNumberChar c = false := by
  intro c hc
  by_contra hnumber
  have hletter := hend c hc
  obtain rfl : c = '.' := by
    simp only [isNumberChar, isDigitOrLetter, Bool.or_eq_false_iff] at hnumber hletter
    simpa [hletter] using hnumber
  obtain ⟨after, rfl⟩ := List.head?_eq_some_iff.mp hc
  rcases h.cons_dot with ⟨next, tokens', rfl⟩ | ⟨count, _, tokens', rfl, -⟩
  · have hnext : significant (⟨d, .number next⟩ :: tokens') = .number next :: significant tokens' := rfl
    exact absurd (hplain.not_run_of_number hnext) (by simp [Kind.isRun])
  · have hnext : significant (⟨d, .dots (count + 1)⟩ :: tokens')
        = .dots (count + 1) :: significant tokens' := rfl
    exact absurd (hplain.not_run_of_number hnext) (by simp [Kind.isRun])

/-- If the scanner sees a colon next, a colon is the next token. -/
lemma Reads.colon {rest : List Char} {d : Nat} {tokens : List Token}
    (h : Reads .code d rest tokens) (hplain : Plain rest tokens)
    (hcolon : (Code.skipTrivia rest).head? = some ':') :
    ∃ after, significant tokens = .mark ':' :: after := by
  obtain ⟨tokens', hread, hsame, -⟩ := h.skipTrivia hplain.lines
  obtain ⟨after, hafter⟩ := List.head?_eq_some_iff.mp hcolon
  rw [hafter] at hread
  obtain ⟨tokens'', rfl⟩ := hread.cons_colon
  exact ⟨significant tokens'', hsame.symm⟩

/-- The search goes past a number. -/
lemma requestInput?_isNumber {number rest : List Char} (hnumber : IsNumber number)
    (hend : ∀ e ∈ rest.head?, isNumberChar e = false) (known : KeyedInput) (context : Context) :
    ∃ context', requestInput? known context (number ++ rest) = requestInput? known context' rest := by
  -- from a digit on, all that is left of the number is taken
  have hdigit : ∀ {c : Char} {tail : List Char} {context : Context}, c.isDigit = true →
      (∀ e ∈ tail, isNumberChar e = true) → ∃ context',
        requestInput? known context (c :: (tail ++ rest)) = requestInput? known context' rest := by
    intro c tail context hc htail
    rw [requestInput?_number hc, dropWhile_run htail hend]
    exact ⟨_, rfl⟩
  have hletter : ∀ {e : Char}, isDigitOrLetter e = true → isNumberChar e = true := by
    intro e he
    simp only [isDigitOrLetter, isNumberChar, Bool.or_eq_true] at he ⊢
    exact he.imp_left .inl
  cases hnumber with
  | whole hc htail => exact hdigit hc fun e he => hletter (htail e he)
  | @decimal c digits tail hc hdigits htail =>
    have hall : ∀ e ∈ digits ++ '.' :: tail, isNumberChar e = true := by
      intro e he
      rcases List.mem_append.mp he with he | he
      · have hcases := hdigits e he
        simp only [isNumberChar, Char.isAlphanum, Bool.or_eq_true] at hcases ⊢
        exact hcases.imp_left fun h => .inl (.inr h)
      · rcases List.mem_cons.mp he with rfl | he
        · decide
        · exact hletter (htail e he)
    simpa using hdigit hc hall
  | @fraction c tail hc htail =>
    have hdot : (c :: (tail ++ rest)).dropWhile (· == '.') = c :: (tail ++ rest) := by
      have hne : c ≠ '.' := by
        rintro rfl
        exact absurd hc (by decide)
      simp [hne]
    rw [List.cons_append, List.cons_append, requestInput?_dot, hdot]
    exact hdigit hc fun e he => hletter (htail e he)

/-- A name that the search takes for the holder of a parameter is followed by a dot and that
parameter, and the search goes on as if it had read them one after the other. -/
lemma Reads.parameter {known : KeyedInput} (hknown : [] ∉ known.parameters) {d : Nat}
    {name text rest dotted : List Char} {tokens : List Token} (hread : Reads .code d rest tokens)
    (hplain : Plain text (⟨d, .name name⟩ :: tokens)) (hrest : Plain rest tokens)
    (hdotted : Code.skipTrivia rest = '.' :: dotted)
    (hparameter : (Code.skipTrivia dotted).takeWhile isNameChar ∈ known.parameters) :
    (∃ after, significant tokens
      = .dots 1 :: .name ((Code.skipTrivia dotted).takeWhile isNameChar) :: after) ∧
      requestInput? known .plain rest
        = requestInput? known .plain ((Code.skipTrivia dotted).dropWhile isNameChar) := by
  obtain ⟨tokens₁, hread₁, hsame₁, hsuffix₁⟩ := hread.skipTrivia hrest.lines
  rw [hdotted] at hread₁
  -- the dot is no part of a number, which could not follow the name
  rcases hread₁.cons_dot with ⟨number, tokens₂, rfl⟩ | ⟨count, after, tokens₂, rfl, hcount, hread₂⟩
  · have hnext : significant tokens = .number number :: significant tokens₂ := by
      rw [← hsame₁, significant_cons]
      rfl
    exact absurd (hplain.neighbours rfl hnext rfl rfl).2 (by simp [Kind.isNumber])
  have hne : (Code.skipTrivia dotted).takeWhile isNameChar ≠ [] :=
    fun hnil => hknown (hnil ▸ hparameter)
  obtain rfl : count = 0 := by
    cases count with
    | zero => rfl
    | succ count =>
      refine absurd ?_ hne
      rw [hcount, List.replicate_succ, List.cons_append,
        skipTrivia_cons (by decide) fun h => absurd h (by decide)]
      rfl
  have hdots : significant tokens = .dots 1 :: significant tokens₂ := by
    rw [← hsame₁, significant_cons]
    rfl
  rw [List.replicate_zero, List.nil_append] at hcount
  subst hcount
  have hplain₂ : Plain dotted tokens₂ := by
    obtain ⟨left, hleft⟩ := suffix_skipTrivia rest
    rw [hdotted] at hleft
    refine hrest.rest (left ++ ['.']) (by simp [hleft]) ?_
    exact ((List.suffix_cons _ _).trans hsuffix₁).isInfix
  obtain ⟨tokens₃, hread₃, hsame₃, hsuffix₃⟩ := hread₂.skipTrivia hplain₂.lines
  obtain ⟨e, segment, hsegment⟩ : ∃ e segment, Code.skipTrivia dotted = e :: segment :=
    List.exists_cons_of_ne_nil fun hnil => hne (by rw [hnil]; rfl)
  rw [hsegment] at hread₃ hne
  have he : isNameChar e = true := by
    by_contra hfalse
    exact hne (by simp [hfalse])
  -- nor does a number follow the dot
  rcases hread₃.cons_name he with ⟨number, tokens₄, rfl⟩ |
    ⟨tail, after, tokens₄, rfl, hdigit, rfl, hend, hread₄⟩
  · have hchain := hrest.numbers
    rw [hdots, ← hsame₃, significant_cons, if_neg (by simp [Kind.isComment])] at hchain
    exact absurd ((List.isChain_cons_cons.mp hchain).1 rfl rfl).2 (by simp [Kind.isNumber])
  have hchars : ∀ c ∈ e :: tail, isNameChar c = true :=
    List.all_eq_true.mp (hplain₂.names ⟨d, .name (e :: tail)⟩ (hsuffix₃.subset (by simp)))
  have hafter : ∀ c ∈ after.head?, isNameChar c = false :=
    fun c hc => isNameChar_of_isIdentifierChar (hend c hc)
  have htail : ∀ c ∈ tail, isNameChar c = true := fun c hc => hchars c (by simp [hc])
  have htake : (e :: (tail ++ after)).takeWhile isNameChar = e :: tail :=
    takeWhile_run hchars hafter
  have hdrop : (e :: (tail ++ after)).dropWhile isNameChar = after :=
    dropWhile_run hchars hafter
  rw [hsegment, htake, hdrop]
  constructor
  · refine ⟨significant tokens₄, ?_⟩
    rw [hdots, ← hsame₃, significant_cons]
    rfl
  · have hrun : dotted.dropWhile (· == '.') = dotted := by
      cases dotted with
      | nil => rfl
      | cons c dotted =>
        have hne : c ≠ '.' := by
          rintro rfl
          rw [skipTrivia_cons (by decide) fun h => absurd h (by decide)] at hsegment
          obtain ⟨rfl, -⟩ := List.cons.inj hsegment
          exact absurd he (by decide)
        simp [hne]
    calc requestInput? known .plain rest
        = requestInput? known .plain ('.' :: dotted) := by
          rw [← hdotted, requestInput?_skipTrivia]
      _ = requestInput? known .member dotted := by
          rw [requestInput?_dot, hrun, Context.afterDots, if_pos rfl]
      _ = requestInput? known .member (e :: (tail ++ after)) := by
          rw [← hsegment, requestInput?_skipTrivia]
      _ = requestInput? known .plain after := requestInput?_member he hdigit htail hafter

/-- **All names pass for a reason.** Where the search finds no request input in a plain text, each
name in it is fixed. In a template this holds up to the closing backtick, from where on the search has
found nothing, either. -/
lemma Reads.allFixed {known : KeyedInput} (hknown : [] ∉ known.parameters) {mode : Mode} {d : Nat}
    {text : List Char} {tokens : List Token} (h : Reads mode d text tokens)
    (hplain : Plain text tokens) :
    match mode with
    | .code => ∀ context before, Suits context before (significant tokens) →
        requestInput? known context text = none → AllFixed known before (significant tokens)
    | .template => ∀ tail before, templateInput? known (text ++ backtick :: tail) = none →
        AllFixed known before (significant tokens) ∧ requestInput? known .plain tail = none := by
  induction h with
  | nil =>
    intro context before _ _
    trivial
  | @gap d c rest tokens hc hread ih =>
    intro context before hsuits hnone
    have hrest : Plain rest tokens := hplain.rest [c] rfl List.infix_rfl
    by_cases hspace : isSpace c = true
    · rw [requestInput?_space hspace] at hnone
      exact ih hrest context before hsuits hnone
    · -- the search takes other blanks for marks, and so forgets what stands in front
      obtain ⟨hquote, hname, hdot, hslash, hopen, -, hcomma⟩ := ne_of_isGap hc
      rw [requestInput?_mark (by simpa using hspace) hquote hname hdot fun h => absurd h hslash]
        at hnone
      have hplainContext : Context.afterMark c = .plain := by simp [Context.afterMark, hopen, hcomma]
      rw [hplainContext] at hnone
      exact ih hrest .plain before (suits_plain _ _) hnone
  | @lineComment d body rest tokens hbody hend hinside hread ih =>
    intro context before hsuits hnone
    have hrest : Plain rest tokens :=
      hplain.rest ('/' :: '/' :: body) (by simp) (List.suffix_cons _ _).isInfix
    rw [requestInput?] at hnone
    refine ih hrest context before hsuits ?_
    rcases afterLine_comment hbody hend hrest.lines with heq | ⟨after, hcr, heq⟩
    · rw [← heq]
      exact hnone
    · rw [hcr, requestInput?_space (by decide), ← heq]
      exact hnone
  | @blockComment d body rest tokens hbody hread ih =>
    intro context before hsuits hnone
    have hrest : Plain rest tokens :=
      hplain.rest ('/' :: '*' :: (body ++ ['*', '/'])) (by simp) (List.suffix_cons _ _).isInfix
    rw [requestInput?, afterBlock, afterBlock?_comment hbody, Option.getD_some] at hnone
    exact ih hrest context before hsuits hnone
  | @quoted d quote body rest tokens hquote hbody hread ih =>
    intro context before hsuits hnone
    have hrest : Plain rest tokens :=
      hplain.rest (quote :: (body ++ [quote])) (by simp) (List.suffix_cons _ _).isInfix
    rw [requestInput?_quoted hquote (afterQuoted?_body hquote hbody)] at hnone
    exact allFixed_cons rfl (by simp) (ih hrest .plain _ (suits_plain _ _) hnone)
  | @number d number rest tokens hnumber hend hdot hread ih =>
    intro context before hsuits hnone
    have hrest : Plain rest tokens := hplain.rest number rfl (List.suffix_cons _ _).isInfix
    obtain ⟨context', heq⟩ := requestInput?_isNumber hnumber (hread.not_numberChar hplain hend) known
      context
    rw [heq] at hnone
    refine allFixed_cons rfl (by simp) (ih hrest context' _ ?_ hnone)
    intro name after hafter
    exact absurd (hplain.not_run_of_number hafter) (by simp [Kind.isRun])
  | @name d c text rest tokens hdigit htext hend hread ih =>
    intro context before hsuits hnone
    have hrest : Plain rest tokens := hplain.rest (c :: text) rfl (List.suffix_cons _ _).isInfix
    have hchars : ∀ e ∈ c :: text, isNameChar e = true :=
      List.all_eq_true.mp (hplain.names ⟨d, .name (c :: text)⟩ (by simp))
    have hafter : ∀ e ∈ rest.head?, isNameChar e = false :=
      fun e he => isNameChar_of_isIdentifierChar (hend e he)
    rcases requestInput?_name (hchars c (by simp)) hdigit (fun e he => hchars e (by simp [he])) hafter
      hnone with ⟨hpass, hnext⟩ | ⟨hholder, dotted, hdotted, hparameter, hnext⟩
    · refine allFixed_cons rfl ?_ (ih hrest .plain _ (suits_plain _ _) hnext)
      intro name hname
      obtain rfl := Kind.name.inj hname
      obtain ⟨hmember, hentry⟩ := hsuits (c :: text) (significant tokens) rfl
      rcases hpass with hcontext | ⟨hcontext, hcolon⟩ | hliteral
      · rw [hmember hcontext]
        exact .member
      · obtain ⟨opening, rfl, hopening⟩ := hentry hcontext
        obtain ⟨after, hkinds⟩ := hread.colon hrest hcolon
        rw [hkinds]
        exact .key hopening
      · exact .literal hliteral
    · obtain ⟨⟨after, hkinds⟩, hsame⟩ := hread.parameter hknown hplain hrest hdotted hparameter
      refine allFixed_cons rfl ?_ (ih hrest .plain _ (suits_plain _ _) (hsame.trans hnext))
      intro name hname
      obtain rfl := Kind.name.inj hname
      rw [hkinds, hholder]
      exact .parameter hparameter
  | @dots d count rest tokens hend hdigit hread ih =>
    intro context before hsuits hnone
    have hrest : Plain rest tokens :=
      hplain.rest ('.' :: List.replicate count '.') rfl (List.suffix_cons _ _).isInfix
    have hrun : (List.replicate count '.' ++ rest).dropWhile (· == '.') = rest := by
      refine dropWhile_run (fun e he => by simp [List.eq_of_mem_replicate he]) ?_
      intro e he
      rw [beq_eq_false_iff_ne]
      rintro rfl
      exact hend he
    rw [requestInput?_dot, hrun] at hnone
    refine allFixed_cons rfl (by simp) (ih hrest _ _ ?_ hnone)
    intro name after _
    constructor
    · intro hmember
      unfold Context.afterDots at hmember
      split at hmember
      · rename_i hlength
        rw [List.length_append, List.length_replicate] at hlength
        obtain rfl : count = 0 := by omega
        rfl
      · simp at hmember
    · intro hentry
      unfold Context.afterDots at hentry
      split at hentry <;> simp at hentry
  | @mark d c rest tokens hc hcomment hread ih =>
    intro context before hsuits hnone
    have hrest : Plain rest tokens := hplain.rest [c] rfl (List.suffix_cons _ _).isInfix
    rw [requestInput?_mark (isSpace_of_isGap hc.not_gap) hc.not_quote
      (isNameChar_of_isIdentifierChar hc.not_identifier) hc.not_dot hcomment] at hnone
    refine allFixed_cons rfl (by simp) (ih hrest _ _ ?_ hnone)
    intro name after _
    unfold Context.afterMark
    split
    · rename_i hopening
      exact ⟨by simp, fun _ => ⟨c, rfl, by simpa using hopening⟩⟩
    · exact ⟨by simp, by simp⟩
  | @template d body rest inner tokens hbody hread ihbody ih =>
    intro context before hsuits hnone
    have hpart : Plain body inner :=
      hplain.part [backtick] (backtick :: rest) (by simp) (by simp [backtick])
        ⟨[⟨d, .template⟩], ⟨d, .templateEnd⟩ :: tokens, by simp⟩
    have hrest : Plain rest tokens :=
      hplain.rest (backtick :: (body ++ [backtick])) (by simp)
        ⟨⟨d, .template⟩ :: (inner ++ [⟨d, .templateEnd⟩]), [], by simp⟩
    rw [requestInput?_template] at hnone
    obtain ⟨hinner, hnext⟩ := ihbody hpart rest (some .template) hnone
    refine allFixed_cons rfl (by simp) ?_
    rw [significant_append, significant_cons]
    exact hinner.append (by simp) (ih hrest .plain _ (suits_plain _ _) hnext)
  | done =>
    intro tail before hnone
    rw [List.nil_append, templateInput?_close] at hnone
    exact ⟨trivial, hnone⟩
  | @char d c rest tokens hquote hescape hopen hread ih =>
    intro tail before hnone
    have hopen' : c = '$' → (rest ++ backtick :: tail).head? ≠ some '\x7b' := by
      intro hc
      cases rest with
      | nil => simp [backtick]
      | cons e rest => simpa using hopen hc
    rw [List.cons_append, templateInput?_char hquote hescape hopen'] at hnone
    exact ih (hplain.rest [c] rfl List.infix_rfl) tail before hnone
  | @escape d c rest tokens hread ih =>
    intro tail before hnone
    rw [List.cons_append, List.cons_append, templateInput?] at hnone
    exact ih (hplain.rest ['\\', c] rfl List.infix_rfl) tail before hnone
  | @interpolation d code rest inner tokens hcode hclosed hread ihcode ih =>
    intro tail before hnone
    have hpart : Plain code inner :=
      hplain.part ['$', '\x7b'] ('\x7d' :: rest) (by simp) (by simp)
        ⟨[⟨d, .interpolation⟩], ⟨d, .resumption⟩ :: tokens, by simp⟩
    have hrest : Plain rest tokens :=
      hplain.rest ('$' :: '\x7b' :: (code ++ ['\x7d'])) (by simp)
        ⟨⟨d, .interpolation⟩ :: (inner ++ [⟨d, .resumption⟩]), [], by simp⟩
    have hcut : '$' :: '\x7b' :: (code ++ '\x7d' :: rest) ++ backtick :: tail
        = '$' :: '\x7b' :: (code ++ '\x7d' :: (rest ++ backtick :: tail)) := by simp
    rw [hcut] at hnone
    obtain ⟨hinside, hnext⟩ := templateInput?_interpolation
      (hcode.afterBrace?_closed (by omega) hpart hclosed _) hnone
    rw [interpolated_append] at hinside
    obtain ⟨hfixed, hfound⟩ := ih hrest tail (some .resumption) hnext
    refine ⟨allFixed_cons rfl (by simp) ?_, hfound⟩
    rw [significant_append, significant_cons]
    exact (ihcode hpart .plain _ (suits_plain _ _) hinside).append (by simp) hfixed

end CachedRoutes.Code
