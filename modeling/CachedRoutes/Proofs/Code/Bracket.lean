import CachedRoutes.Code.Bracket
import CachedRoutes.Proofs.Code.Token

/-!
# Where the scanner finds closing marks

The scanner looks for the end of quoted text, of a template inside of an interpolation and of an
interpolation by simple rules. In plain texts it finds the ends that the tokens have.

* **Quoted text** (`afterQuoted?_body`).
* **Parentheses** (`afterParen?_other`, `afterParen?_quote`, `afterParen?_block`): one equation for each
  thing that can stand there.
* **Templates in interpolations** (`afterQuoted?_template`): the next backtick is the closing one, as
  there is none in the interpolations of the template.
* **Interpolations** (`afterBrace?_closed`): braces in quoted text and templates are passed over, and
  the braces among the tokens are balanced.
-/

namespace CachedRoutes.Code

/-! ## Quotes -/

/-- One step over a character that is neither the quote nor a backslash nor a line feed. -/
lemma afterQuoted?_char {quote c : Char} {rest : List Char} (hquote : c ≠ quote) (hescape : c ≠ '\\')
    (hfeed : c = '\n' → quote = backtick) :
    afterQuoted? quote (c :: rest) = afterQuoted? quote rest := by
  have hno : (c = '\n' && quote != backtick) = false := by
    by_cases hc : c = '\n'
    · simp [hfeed hc]
    · simp [hc]
  rw [afterQuoted?]
  · simp [hno, hquote]
  · rintro rfl
    exact absurd rfl hescape
  · rintro d after rfl
    exact absurd rfl hescape

/-- A quote closes the quoted text. -/
lemma afterQuoted?_close {quote : Char} {rest : List Char} (hescape : quote ≠ '\\')
    (hfeed : quote ≠ '\n') : afterQuoted? quote (quote :: rest) = some rest := by
  rw [afterQuoted?]
  · simp [hfeed]
  · rintro rfl
    exact absurd rfl hescape
  · rintro d after rfl
    exact absurd rfl hescape

/-- The scanner finds the end of quoted text. -/
lemma afterQuoted?_body {quote : Char} {body rest : List Char}
    (hquote : quote = '\x27' ∨ quote = '\x22') (hbody : QuotedBody quote body) :
    afterQuoted? quote (body ++ quote :: rest) = some rest := by
  induction hbody with
  | nil =>
    refine afterQuoted?_close ?_ ?_ <;> rcases hquote with rfl | rfl <;> decide
  | char hne hescape hfeed _ ih =>
    rw [List.cons_append, afterQuoted?_char hne hescape fun h => absurd h hfeed]
    exact ih
  | escape _ ih =>
    rw [List.cons_append, List.cons_append, afterQuoted?]
    exact ih

/-- Code without a backtick, and the brace behind it, is passed over on the way to a backtick. -/
lemma afterQuoted?_code {code rest : List Char} (hcode : backtick ∉ code) :
    afterQuoted? backtick (code ++ '\x7d' :: rest) = afterQuoted? backtick rest := by
  -- a backslash takes the next character along, so the length goes down by one or two
  induction hn : code.length using Nat.strong_induction_on generalizing code with
  | _ n ih =>
    cases code with
    | nil => exact afterQuoted?_char (by decide) (by decide) fun _ => rfl
    | cons c code =>
      rw [List.mem_cons, not_or] at hcode
      by_cases hc : c = '\\'
      · subst hc
        cases code with
        | nil => rw [List.singleton_append, afterQuoted?]
        | cons e code =>
          rw [List.cons_append, List.cons_append, afterQuoted?]
          rw [List.mem_cons, not_or] at hcode
          have hless : code.length < n := by
            rw [← hn, List.length_cons, List.length_cons]
            omega
          exact ih code.length hless hcode.2.2 rfl
      · rw [List.cons_append, afterQuoted?_char (Ne.symm hcode.1) hc fun _ => rfl]
        exact ih code.length (by rw [← hn, List.length_cons]; omega) hcode.2 rfl

/-! ## Parentheses -/

section Parentheses

variable {depth : Nat} {c : Char} {rest : List Char}

/-- A character that is no parenthesis and opens nothing counts nothing. -/
lemma afterParen?_other (hopen : c ≠ '(') (hclose : c ≠ ')') (hquote : isQuote c = false)
    (hcomment : c = '/' → rest.head? ≠ some '/' ∧ rest.head? ≠ some '*') :
    afterParen? depth (c :: rest) = afterParen? depth rest := by
  rw [afterParen?, if_neg (by simp [hquote])]
  · exact hopen
  · exact hclose
  · rintro line rfl rfl
    exact (hcomment rfl).1 rfl
  · rintro block rfl rfl
    exact (hcomment rfl).2 rfl

/-- Inside of parentheses a quote opens quoted text, which has to end. -/
lemma afterParen?_quote (hquote : isQuote c = true) :
    afterParen? depth (c :: rest) = (afterQuoted? c rest).bind (afterParen? depth) := by
  have hne : ∀ {x : Char}, isQuote x = false → c ≠ x := by
    rintro x hx rfl
    rw [hquote] at hx
    exact Bool.noConfusion hx
  rw [afterParen?, if_pos hquote]
  · split <;> rename_i hafter <;> rw [hafter] <;> rfl
  · exact hne (by decide)
  · exact hne (by decide)
  · exact fun _ hslash _ => hne (by decide) hslash
  · exact fun _ hslash _ => hne (by decide) hslash

/-- So has a block comment. -/
lemma afterParen?_block :
    afterParen? depth ('/' :: '*' :: rest) = (afterBlock? rest).bind (afterParen? depth) := by
  rw [afterParen?]
  split <;> rename_i hafter <;> rw [hafter] <;> rfl

end Parentheses

/-! ## Templates in interpolations -/

/-- An inner character is neither a quote nor a brace. -/
lemma isInner_iff {c : Char} :
    isInner c = true ↔ isQuote c = false ∧ c ≠ '\x7b' ∧ c ≠ '\x7d' := by
  simp [isInner, and_assoc]

/-- The characters of identifiers are inner ones. -/
lemma isInner_of_isIdentifierChar {c : Char} (h : isIdentifierChar c = true) : isInner c = true := by
  rw [isInner_iff]
  refine ⟨?_, ?_, ?_⟩
  · by_contra hq
    simp only [Bool.not_eq_false, isQuote, backtick, Bool.or_eq_true, beq_iff_eq] at hq
    rcases hq with (rfl | rfl) | rfl <;> exact absurd h (by decide)
  all_goals
    rintro rfl
    exact absurd h (by decide)

/-- The characters of numbers are inner ones. -/
lemma isInner_of_mem_number {text : List Char} (h : IsNumber text) {c : Char} (hc : c ∈ text) :
    isInner c = true := by
  have hletter : ∀ {e : Char}, isDigitOrLetter e = true → isInner e = true := fun he =>
    isInner_of_isIdentifierChar (isIdentifierChar_of_isNameChar (isNameChar_of_isDigitOrLetter he))
  have hdigit : ∀ {e : Char}, e.isDigit = true → isInner e = true := fun he =>
    isInner_of_isIdentifierChar (isIdentifierChar_of_isNameChar (isNameChar_of_isDigit he))
  have hdot : isInner '.' = true := by decide
  cases h with
  | whole hfirst htail =>
    rcases List.mem_cons.mp hc with rfl | hc
    · exact hdigit hfirst
    · exact hletter (htail c hc)
  | decimal hfirst hdigits htail =>
    rcases List.mem_append.mp hc with hc | hc
    · rcases List.mem_cons.mp hc with rfl | hc
      · exact hdigit hfirst
      · refine hletter ?_
        have hcases := hdigits c hc
        simp only [isDigitOrLetter, Char.isAlphanum, Bool.or_eq_true] at hcases ⊢
        exact hcases.imp_left .inr
    · rcases List.mem_cons.mp hc with rfl | hc
      · exact hdot
      · exact hletter (htail c hc)
  | fraction hfirst htail =>
    rcases List.mem_cons.mp hc with rfl | hc
    · exact hdot
    · rcases List.mem_cons.mp hc with rfl | hc
      · exact hdigit hfirst
      · exact hletter (htail c hc)

/-- **Code in an interpolation, one step at a time.** It starts with characters that open and close
nothing, with a brace, with quoted text or with a template. -/
lemma Reads.inner_cases {d : Nat} {text : List Char} {tokens : List Token}
    (h : Reads .code d text tokens) (hd : 1 ≤ d) (hplain : Plain text tokens) :
    (text = [] ∧ tokens = []) ∨
    (∃ x rest tokens', text = x ++ rest ∧ x ≠ [] ∧ (∀ c ∈ x, isInner c = true) ∧
      (∀ count, bracesAfter? count tokens = bracesAfter? count tokens') ∧
      Reads .code d rest tokens' ∧ Plain rest tokens') ∨
    (∃ c rest tokens', text = c :: rest ∧ tokens = ⟨d, .mark c⟩ :: tokens' ∧
      (c = '\x7b' ∨ c = '\x7d') ∧ Reads .code d rest tokens' ∧ Plain rest tokens') ∨
    (∃ quote body rest tokens', text = quote :: (body ++ quote :: rest) ∧
      tokens = ⟨d, .quoted body⟩ :: tokens' ∧ (quote = '\x27' ∨ quote = '\x22') ∧
      QuotedBody quote body ∧ Reads .code d rest tokens' ∧ Plain rest tokens') ∨
    (∃ body rest inner tokens', text = backtick :: (body ++ backtick :: rest) ∧
      tokens = ⟨d, .template⟩ :: (inner ++ ⟨d, .templateEnd⟩ :: tokens') ∧
      Reads .template d body inner ∧ Plain body inner ∧
      Reads .code d rest tokens' ∧ Plain rest tokens') := by
  -- what follows the first token is plain, too
  have hrest : ∀ {x rest tokens'}, text = x ++ rest → tokens' <:+ tokens → Plain rest tokens' :=
    fun {x _ _} htext htokens => hplain.rest x htext htokens.isInfix
  -- the case of characters that open and close nothing
  have hinner : ∀ {x rest tokens'}, text = x ++ rest → x ≠ [] → (∀ c ∈ x, isInner c = true) →
      tokens' <:+ tokens → (∀ count, bracesAfter? count tokens = bracesAfter? count tokens') →
      Reads .code d rest tokens' →
      ∃ x rest tokens', text = x ++ rest ∧ x ≠ [] ∧ (∀ c ∈ x, isInner c = true) ∧
        (∀ count, bracesAfter? count tokens = bracesAfter? count tokens') ∧
        Reads .code d rest tokens' ∧ Plain rest tokens' :=
    fun {x rest tokens'} htext hne hchars hsuffix hcount hread =>
      ⟨x, rest, tokens', htext, hne, hchars, hcount, hread, hrest htext hsuffix⟩
  cases h with
  | nil => exact .inl ⟨rfl, rfl⟩
  | @gap _ c rest _ hc hread =>
    have hchars : ∀ e ∈ [c], isInner e = true := by
      obtain ⟨hquote, -, -, -, hopen, hclose, -⟩ := ne_of_isGap hc
      simpa using isInner_iff.mpr ⟨hquote, hopen, hclose⟩
    exact .inr (.inl (hinner (x := [c]) rfl (by simp) hchars (List.suffix_refl _) (fun _ => rfl)
      hread))
  | @lineComment _ body rest tokens' hbody hend hinside hread =>
    have hchars : ∀ e ∈ '/' :: '/' :: body, isInner e = true := by
      intro e he
      rcases List.mem_cons.mp he with rfl | he
      · decide
      rcases List.mem_cons.mp he with rfl | he
      · decide
      · exact List.all_eq_true.mp (hplain.comments ⟨d, .comment body⟩ (by simp) hd) e he
    exact .inr (.inl (hinner (x := '/' :: '/' :: body) (by simp) (by simp) hchars
      (List.suffix_cons _ _) (fun _ => rfl) hread))
  | @blockComment _ body rest tokens' hbody hread =>
    have hchars : ∀ e ∈ '/' :: '*' :: (body ++ ['*', '/']), isInner e = true := by
      intro e he
      rcases List.mem_cons.mp he with rfl | he
      · decide
      rcases List.mem_cons.mp he with rfl | he
      · decide
      rcases List.mem_append.mp he with he | he
      · exact List.all_eq_true.mp (hplain.comments ⟨d, .comment body⟩ (by simp) hd) e he
      · rcases List.mem_cons.mp he with rfl | he
        · decide
        · obtain rfl := List.mem_singleton.mp he
          decide
    exact .inr (.inl (hinner (x := '/' :: '*' :: (body ++ ['*', '/'])) (by simp) (by simp) hchars
      (List.suffix_cons _ _) (fun _ => rfl) hread))
  | @quoted _ quote body rest tokens' hquote hbody hread =>
    exact .inr (.inr (.inr (.inl ⟨quote, body, rest, tokens', rfl, rfl, hquote, hbody, hread,
      hrest (x := quote :: (body ++ [quote])) (by simp) (List.suffix_cons _ _)⟩)))
  | @number _ number rest tokens' hnumber hend hdot hread =>
    obtain ⟨c, tail, heq, -⟩ := hnumber.head
    exact .inr (.inl (hinner rfl (by simp [heq]) (fun e he => isInner_of_mem_number hnumber he)
      (List.suffix_cons _ _) (fun _ => rfl) hread))
  | @name _ c name rest tokens' hdigit hname hend hread =>
    exact .inr (.inl (hinner (x := c :: name) rfl (by simp)
      (fun e he => isInner_of_isIdentifierChar (hname e he)) (List.suffix_cons _ _) (fun _ => rfl)
      hread))
  | @dots _ count rest tokens' hend hdigit hread =>
    have hchars : ∀ e ∈ '.' :: List.replicate count '.', isInner e = true := by
      intro e he
      obtain rfl : e = '.' := by
        rcases List.mem_cons.mp he with rfl | he
        · rfl
        · exact List.eq_of_mem_replicate he
      decide
    exact .inr (.inl (hinner (x := '.' :: List.replicate count '.') rfl (by simp) hchars
      (List.suffix_cons _ _) (fun _ => rfl) hread))
  | @mark _ c rest tokens' hc hcomment hread =>
    by_cases hbrace : c = '\x7b' ∨ c = '\x7d'
    · exact .inr (.inr (.inl ⟨c, rest, tokens', rfl, rfl, hbrace, hread,
        hrest (x := [c]) rfl (List.suffix_cons _ _)⟩))
    · rw [not_or] at hbrace
      have hchars : ∀ e ∈ [c], isInner e = true := by
        simpa using isInner_iff.mpr ⟨hc.not_quote, hbrace.1, hbrace.2⟩
      refine .inr (.inl (hinner (x := [c]) rfl (by simp) hchars (List.suffix_cons _ _) ?_ hread))
      exact fun count => bracesAfter?_cons_of_ne (by simpa using hbrace.1) (by simpa using hbrace.2)
        count tokens'
  | @template _ body rest inner tokens' hbody hread =>
    have hpart : Plain body inner := by
      refine hplain.part [backtick] (backtick :: rest) (by simp) (by simp [backtick]) ?_
      exact ⟨[⟨d, .template⟩], ⟨d, .templateEnd⟩ :: tokens', by simp⟩
    exact .inr (.inr (.inr (.inr ⟨body, rest, inner, tokens', rfl, rfl, hbody, hpart, hread,
      hrest (x := backtick :: (body ++ [backtick])) (by simp)
        ⟨⟨d, .template⟩ :: (inner ++ [⟨d, .templateEnd⟩]), by simp⟩⟩)))

/-- In an interpolation of a template in an interpolation there is no backtick. -/
lemma Reads.backtick_not_mem {d : Nat} {text : List Char} {tokens : List Token}
    (h : Reads .code d text tokens) (hd : 2 ≤ d) (hplain : Plain text tokens) :
    backtick ∉ text := by
  induction hn : text.length using Nat.strong_induction_on generalizing text tokens with
  | _ n ih =>
    rcases h.inner_cases (by omega) hplain with ⟨rfl, -⟩ |
      ⟨x, rest, tokens', rfl, hne, hchars, -, hread, hrest⟩ |
      ⟨c, rest, tokens', rfl, rfl, hc, hread, hrest⟩ |
      ⟨quote, body, rest, tokens', rfl, rfl, hquote, -, hread, hrest⟩ |
      ⟨body, rest, inner, tokens', rfl, rfl, -⟩
    · simp
    · have hlength : 0 < x.length := List.length_pos_iff.mpr hne
      have htail := ih rest.length (by simp [← hn]; omega) hread hrest rfl
      intro hmem
      rcases List.mem_append.mp hmem with hmem | hmem
      · exact absurd (hchars _ hmem) (by decide)
      · exact htail hmem
    · have htail := ih rest.length (by simp [← hn]) hread hrest rfl
      intro hmem
      rcases List.mem_cons.mp hmem with rfl | hmem
      · exact absurd hc (by decide)
      · exact htail hmem
    · have htail := ih rest.length (by simp [← hn]; omega) hread hrest rfl
      have hbody : backtick ∉ body := by
        have := hplain.templates ⟨d, .quoted body⟩ (by simp) hd
        simpa [Kind.hasNoBacktick] using this
      have hne : backtick ≠ quote := by rcases hquote with rfl | rfl <;> decide
      simp [hne, hbody, htail]
    · exact absurd (hplain.templates ⟨d, .template⟩ (by simp) hd) (by simp [Kind.hasNoBacktick])

/-- **The scanner finds the end of a template in an interpolation.** -/
lemma Reads.afterQuoted?_template {d : Nat} {body : List Char} {inner : List Token}
    (h : Reads .template d body inner) (hd : 1 ≤ d) (hplain : Plain body inner)
    (rest : List Char) : afterQuoted? backtick (body ++ backtick :: rest) = some rest := by
  induction h using Reads.template_induction with
  | done => exact afterQuoted?_close (by decide) (by decide)
  | char c body tokens hquote hescape hopen hread ih =>
    rw [List.cons_append, afterQuoted?_char hquote hescape fun _ => rfl]
    exact ih (hplain.rest [c] rfl List.infix_rfl)
  | escape c body tokens hread ih =>
    rw [List.cons_append, List.cons_append, Code.afterQuoted?]
    exact ih (hplain.rest ['\\', c] rfl List.infix_rfl)
  | interpolation code body inner tokens hcode hclosed hread ih =>
    have hpart : Plain code inner := by
      refine hplain.part ['$', '\x7b'] ('\x7d' :: body) (by simp) (by simp) ?_
      exact ⟨[⟨d, .interpolation⟩], ⟨d, .resumption⟩ :: tokens, by simp⟩
    have hbody : Plain body tokens := by
      refine hplain.rest ('$' :: '\x7b' :: (code ++ ['\x7d'])) (by simp) ?_
      exact ⟨⟨d, .interpolation⟩ :: (inner ++ [⟨d, .resumption⟩]), [], by simp⟩
    have hnone : backtick ∉ code := hcode.backtick_not_mem (by omega) hpart
    have hcut : '$' :: '\x7b' :: (code ++ '\x7d' :: body) ++ backtick :: rest
        = '$' :: '\x7b' :: (code ++ '\x7d' :: (body ++ backtick :: rest)) := by simp
    rw [hcut, afterQuoted?_char (by decide) (by decide) fun _ => rfl,
      afterQuoted?_char (by decide) (by decide) fun _ => rfl, afterQuoted?_code hnone]
    exact ih hbody

/-! ## Braces -/

/-- The tokens of a template leave the count as it is. -/
lemma Reads.bracesAfter?_template {d : Nat} {body : List Char} {inner : List Token}
    (h : Reads .template d body inner) (count : Nat) (tokens : List Token) :
    bracesAfter? count (inner ++ tokens) = bracesAfter? count tokens := by
  induction h using Reads.template_induction with
  | done => rfl
  | char _ _ _ _ _ _ _ ih => exact ih
  | escape _ _ _ _ ih => exact ih
  | interpolation code body inner' tokens' hcode hclosed hread ih =>
    have hskip : ∀ more, bracesAfter? count (inner' ++ more) = bracesAfter? count more := by
      intro more
      simpa using bracesAfter?_append hclosed count more
    rw [List.cons_append, List.append_assoc, List.cons_append,
      bracesAfter?_cons_of_ne (by simp) (by simp), hskip,
      bracesAfter?_cons_of_ne (by simp) (by simp)]
    exact ih

/-- Characters that open and close nothing are passed over. -/
lemma afterBrace?_inner {x : List Char} (hx : ∀ c ∈ x, isInner c = true) (count : Nat)
    (rest : List Char) : afterBrace? count (x ++ rest) = afterBrace? count rest := by
  induction x with
  | nil => rfl
  | cons c x ih =>
    obtain ⟨hquote, hopen, hclose⟩ := isInner_iff.mp (hx c (by simp))
    rw [List.cons_append, afterBrace?]
    · rw [hquote]
      exact ih fun e he => hx e (by simp [he])
    · rintro rfl
      exact absurd rfl hopen
    · rintro rfl
      exact absurd rfl hclose

/-- Quoted text is passed over. -/
lemma afterBrace?_quoted {quote : Char} {rest after : List Char} (hquote : isQuote quote = true)
    (hafter : afterQuoted? quote rest = some after) (count : Nat) :
    afterBrace? count (quote :: rest) = afterBrace? count after := by
  rw [afterBrace?]
  · rw [if_pos hquote]
    split
    · rename_i found hfound
      rw [hafter] at hfound
      rw [Option.some.inj hfound]
    · rename_i hnone
      rw [hafter] at hnone
      simp at hnone
  · rintro rfl
    exact absurd hquote (by decide)
  · rintro rfl
    exact absurd hquote (by decide)

/-- The scanner counts the braces among the tokens. -/
lemma Reads.afterBrace?_append {d : Nat} {text : List Char} {tokens : List Token}
    (h : Reads .code d text tokens) (hd : 1 ≤ d) (hplain : Plain text tokens) {count count' : Nat}
    (hcount : bracesAfter? count tokens = some count') (tail : List Char) :
    afterBrace? count (text ++ tail) = afterBrace? count' tail := by
  induction hn : text.length using Nat.strong_induction_on generalizing text tokens count with
  | _ n ih =>
    rcases h.inner_cases hd hplain with ⟨rfl, rfl⟩ |
      ⟨x, rest, tokens', rfl, hne, hchars, hsame, hread, hrest⟩ |
      ⟨c, rest, tokens', rfl, rfl, hc, hread, hrest⟩ |
      ⟨quote, body, rest, tokens', rfl, rfl, hquote, hbody, hread, hrest⟩ |
      ⟨body, rest, inner, tokens', rfl, rfl, hbody, hpart, hread, hrest⟩
    · obtain rfl := Option.some.inj hcount
      rfl
    · have hlength : 0 < x.length := List.length_pos_iff.mpr hne
      rw [List.append_assoc, afterBrace?_inner hchars]
      exact ih rest.length (by simp [← hn]; omega) hread hrest (hsame count ▸ hcount) rfl
    · rw [bracesAfter?_cons] at hcount
      obtain ⟨next, hnext, hcount⟩ := Option.bind_eq_some_iff.mp hcount
      have hstep : afterBrace? count (c :: (rest ++ tail)) = afterBrace? next (rest ++ tail) := by
        rcases hc with rfl | rfl
        · obtain rfl : count + 1 = next := by simpa [Kind.braces?] using hnext
          rw [afterBrace?]
        · cases count with
          | zero => simp [Kind.braces?] at hnext
          | succ count =>
            obtain rfl : count = next := by simpa [Kind.braces?] using hnext
            rw [afterBrace?]
      rw [List.cons_append, hstep]
      exact ih rest.length (by simp [← hn]) hread hrest hcount rfl
    · rw [bracesAfter?_cons_of_ne (by simp) (by simp)] at hcount
      have hend : afterQuoted? quote (body ++ quote :: (rest ++ tail)) = some (rest ++ tail) :=
        afterQuoted?_body hquote hbody
      have hmark : isQuote quote = true := by rcases hquote with rfl | rfl <;> decide
      have hcut : quote :: (body ++ quote :: rest) ++ tail
          = quote :: (body ++ quote :: (rest ++ tail)) := by simp
      rw [hcut, afterBrace?_quoted hmark hend]
      exact ih rest.length (by simp [← hn]; omega) hread hrest hcount rfl
    · rw [bracesAfter?_cons_of_ne (by simp) (by simp), hbody.bracesAfter?_template,
        bracesAfter?_cons_of_ne (by simp) (by simp)] at hcount
      have hcut : backtick :: (body ++ backtick :: rest) ++ tail
          = backtick :: (body ++ backtick :: (rest ++ tail)) := by simp
      rw [hcut, afterBrace?_quoted (by decide) (hbody.afterQuoted?_template hd hpart _)]
      exact ih rest.length (by simp [← hn]; omega) hread hrest hcount rfl

/-- **The scanner finds the end of an interpolation.** -/
lemma Reads.afterBrace?_closed {d : Nat} {code : List Char} {inner : List Token}
    (h : Reads .code d code inner) (hd : 1 ≤ d) (hplain : Plain code inner) (hclosed : Closed inner)
    (rest : List Char) : afterBrace? 0 (code ++ '\x7d' :: rest) = some rest := by
  rw [h.afterBrace?_append hd hplain hclosed, afterBrace?]

end CachedRoutes.Code
