import CachedRoutes.Proofs.Code.Bracket
import CachedRoutes.Proofs.Code.Chain

/-!
# Call chains are read exactly

The scanner of call chains reads nothing but calls. Here is the other direction: whatever is a sequence
of calls is read as these calls, so that the scanner and the grammar say the same.

* **Ends** (`afterBlock?_eq_some_iff`, `afterQuoted?_eq_some_iff`): where block comments and quoted
  texts end, as an equivalence.
* **Trivia** (`skipTrivia_eq_iff`): what is left past blanks and comments. A comment that nothing closes
  runs to the end of the text.
* **Balanced text** (`afterParen?_balanced`): it is passed over on the way to a closing parenthesis.
* **Chains** (`chain?_eq_some_iff`): the names and the rest of a chain.
-/

namespace CachedRoutes.Code

/-! ## Ends of comments and quoted texts -/

/-- A line comment ends where a line feed follows, or the text ends. -/
lemma afterLine_body {body rest : List Char} (hbody : '\n' ∉ body)
    (hrest : ∀ c ∈ rest.head?, c = '\n') : afterLine (body ++ rest) = rest := by
  apply dropWhile_run
  · intro c hc
    rw [bne_iff_ne]
    rintro rfl
    exact hbody hc
  · intro c hc
    rw [hrest c hc]
    rfl

/-- A block comment ends with the first `*/`. -/
lemma afterBlock?_eq_some_iff {text rest : List Char} :
    afterBlock? text = some rest ↔
      ∃ body, ¬ ['*', '/'] <:+: body ∧ text = body ++ '*' :: '/' :: rest := by
  refine ⟨exists_block_body, ?_⟩
  rintro ⟨body, hbody, rfl⟩
  exact afterBlock?_comment hbody

/-- Without a `*/` it has no end. -/
lemma afterBlock?_eq_none_iff {text : List Char} :
    afterBlock? text = none ↔ ¬ ['*', '/'] <:+: text := by
  fun_induction afterBlock? text with
  | case1 => simp
  | case2 rest =>
    have hinside : ['*', '/'] <:+: '*' :: '/' :: rest := ⟨[], rest, rfl⟩
    simp [hinside]
  | case3 c text hopen ih =>
    rw [ih, List.infix_cons_iff, not_or]
    refine ⟨fun hlater => ⟨?_, hlater⟩, fun hboth => hboth.2⟩
    rintro ⟨rest, hrest⟩
    obtain ⟨rfl, htext⟩ := List.cons.inj hrest
    exact hopen rest rfl htext.symm

/-- Quoted text ends with the first quote that no backslash hides. -/
lemma afterQuoted?_eq_some_iff {quote : Char} (hquote : isQuote quote = true)
    {text rest : List Char} :
    afterQuoted? quote text = some rest ↔
      ∃ body, Enclosed quote body ∧ text = body ++ quote :: rest := by
  refine ⟨exists_enclosed, ?_⟩
  rintro ⟨body, hbody, rfl⟩
  induction hbody with
  | nil =>
    apply afterQuoted?_close
    · rintro rfl
      exact absurd hquote (by decide)
    · rintro rfl
      exact absurd hquote (by decide)
  | char hne hescape hfeed _ ih =>
    rw [List.cons_append, afterQuoted?_char hne hescape hfeed]
    exact ih
  | escape _ ih =>
    rw [List.cons_append, List.cons_append, afterQuoted?]
    exact ih

/-! ## Trivia -/

/-- A comment that nothing closes. -/
inductive Unfinished : List Char → Prop where
  | line {body : List Char} (hbody : '\n' ∉ body) : Unfinished ('/' :: '/' :: body)
  | block {body : List Char} (hbody : ¬ ['*', '/'] <:+: body) : Unfinished ('/' :: '*' :: body)

/-- The text starts with a blank or opens a comment. -/
def StartsTrivia (text : List Char) : Prop :=
  (∃ c ∈ text.head?, isSpace c = true) ∨ ['/', '/'] <+: text ∨ ['/', '*'] <+: text

/-- What is left of a text past all its trivia. A comment that nothing closes runs to the end. -/
inductive PastTrivia : List Char → List Char → Prop where
  | code {trivia rest : List Char} (htrivia : Trivia trivia) (hrest : ¬ StartsTrivia rest) :
      PastTrivia (trivia ++ rest) rest
  | unfinished {trivia comment : List Char} (htrivia : Trivia trivia)
      (hcomment : Unfinished comment) : PastTrivia (trivia ++ comment) []

/-- Blanks and comments in front of others are passed over with them. -/
lemma PastTrivia.prepend {trivia text rest : List Char} (h : PastTrivia text rest)
    (htrivia : ∀ {more}, Trivia more → Trivia (trivia ++ more)) :
    PastTrivia (trivia ++ text) rest := by
  cases h with
  | code hmore hrest =>
    rw [← List.append_assoc]
    exact .code (htrivia hmore) hrest
  | unfinished hmore hcomment =>
    rw [← List.append_assoc]
    exact .unfinished (htrivia hmore) hcomment

/-- The scanner stops past the trivia. -/
lemma pastTrivia_skipTrivia (text : List Char) : PastTrivia text (skipTrivia text) := by
  -- by the length of the text: a comment takes many characters at once
  induction hn : text.length using Nat.strong_induction_on generalizing text with
  | _ n ih =>
    rw [skipTrivia.eq_def]
    split
    · exact .code .nil (by simp [StartsTrivia])
    · rename_i line
      obtain ⟨body, hbody, ⟨rfl, hnil⟩ | ⟨after, rfl, hafter⟩⟩ := exists_line_body line
      · rw [hnil, skipTrivia]
        exact .unfinished .nil (.line hbody)
      · rw [hafter, skipTrivia_space (by decide)]
        have hlength : after.length < n := by
          rw [← hn]
          simp only [List.length_cons, List.length_append]
          omega
        have hpast := (ih _ hlength after rfl).prepend fun hmore => .comment (.line hbody) hmore
        simpa using hpast
    · rename_i block
      unfold afterBlock
      cases hclosed : afterBlock? block with
      | none =>
        rw [Option.getD_none, skipTrivia]
        exact .unfinished .nil (.block (afterBlock?_eq_none_iff.mp hclosed))
      | some after =>
        rw [Option.getD_some]
        obtain ⟨body, hbody, rfl⟩ := exists_block_body hclosed
        have hlength : after.length < n := by
          rw [← hn]
          simp only [List.length_cons, List.length_append]
          omega
        have hpast := (ih _ hlength after rfl).prepend fun hmore => .comment (.block hbody) hmore
        simpa using hpast
    · rename_i c rest hline hblock
      split
      · rename_i hspace
        have hlength : rest.length < n := by
          rw [← hn]
          exact Nat.lt_succ_self _
        have hpast : PastTrivia ([c] ++ rest) (skipTrivia rest) :=
          (ih _ hlength rest rfl).prepend fun hmore => .space hspace hmore
        exact hpast
      · rename_i hspace
        refine .code .nil ?_
        rintro (⟨d, hd, hspace'⟩ | ⟨after, hafter⟩ | ⟨after, hafter⟩)
        · obtain rfl := Option.some.inj hd
          exact hspace hspace'
        · obtain ⟨rfl, rfl⟩ := List.cons.inj hafter
          exact hline after rfl rfl
        · obtain ⟨rfl, rfl⟩ := List.cons.inj hafter
          exact hblock after rfl rfl

/-- Blanks and comments in front of a text are passed over. -/
lemma skipTrivia_append {trivia : List Char} (h : Trivia trivia) (rest : List Char) :
    skipTrivia (trivia ++ rest) = skipTrivia rest := by
  induction h with
  | nil => rfl
  | space hc _ ih =>
    rw [List.cons_append, skipTrivia_space hc]
    exact ih
  | @comment comment more hcomment _ ih =>
    rw [List.append_assoc, ← ih]
    cases hcomment with
    | @line body hbody =>
      have hafter : afterLine (body ++ '\n' :: (more ++ rest)) = '\n' :: (more ++ rest) :=
        afterLine_body hbody (by simp)
      have hcut : '/' :: '/' :: (body ++ ['\n']) ++ (more ++ rest)
          = '/' :: '/' :: (body ++ '\n' :: (more ++ rest)) := by simp
      rw [hcut, skipTrivia, hafter, skipTrivia_space (by decide)]
    | @block body hbody =>
      have hcut : '/' :: '*' :: (body ++ ['*', '/']) ++ (more ++ rest)
          = '/' :: '*' :: (body ++ '*' :: '/' :: (more ++ rest)) := by simp
      rw [hcut, skipTrivia, afterBlock, afterBlock?_comment hbody, Option.getD_some]

/-- Where neither a blank nor a comment starts, nothing is passed over. -/
lemma skipTrivia_of_not_starts {text : List Char} (h : ¬ StartsTrivia text) :
    skipTrivia text = text := by
  cases text with
  | nil => rw [skipTrivia]
  | cons c rest =>
    apply skipTrivia_cons
    · rw [Bool.eq_false_iff]
      exact fun hc => h (.inl ⟨c, rfl, hc⟩)
    · rintro rfl
      constructor
      · intro hhead
        obtain ⟨tail, rfl⟩ := List.head?_eq_some_iff.mp hhead
        exact h (.inr (.inl ⟨tail, rfl⟩))
      · intro hhead
        obtain ⟨tail, rfl⟩ := List.head?_eq_some_iff.mp hhead
        exact h (.inr (.inr ⟨tail, rfl⟩))

/-- Behind a comment without an end, nothing is left. -/
lemma skipTrivia_of_unfinished {comment : List Char} (h : Unfinished comment) :
    skipTrivia comment = [] := by
  cases h with
  | @line body hbody =>
    have hafter : afterLine (body ++ []) = [] := afterLine_body hbody (by simp)
    rw [List.append_nil] at hafter
    rw [skipTrivia, hafter, skipTrivia]
  | block hbody =>
    rw [skipTrivia, afterBlock, afterBlock?_eq_none_iff.mpr hbody, Option.getD_none, skipTrivia]

/-- **The scanner skips trivia exactly.** -/
lemma skipTrivia_eq_iff {text rest : List Char} : skipTrivia text = rest ↔ PastTrivia text rest := by
  constructor
  · rintro rfl
    exact pastTrivia_skipTrivia text
  · intro h
    cases h with
    | code htrivia hrest => rw [skipTrivia_append htrivia, skipTrivia_of_not_starts hrest]
    | unfinished htrivia hcomment =>
      rw [skipTrivia_append htrivia, skipTrivia_of_unfinished hcomment]

/-- No character behind the blanks and comments is the given one, however they are read. -/
lemma skipTrivia_head_ne_iff {text : List Char} {c : Char} :
    (skipTrivia text).head? ≠ some c ↔ ∀ rest, PastTrivia text rest → rest.head? ≠ some c := by
  constructor
  · intro h rest hrest
    rwa [← skipTrivia_eq_iff.mpr hrest]
  · exact fun h => h _ (pastTrivia_skipTrivia text)

/-! ## Balanced text -/

/-- **Balanced text is passed over** on the way to a closing parenthesis. -/
lemma afterParen?_balanced {inner : List Char} (h : Balanced inner) (depth : Nat)
    (rest : List Char) :
    afterParen? depth (inner ++ ')' :: rest) = afterParen? depth (')' :: rest) := by
  induction h generalizing depth rest with
  | nil => rfl
  | @nested inner more _ _ ihinner ihmore =>
    have hcut : '(' :: (inner ++ ')' :: more) ++ ')' :: rest
        = '(' :: (inner ++ ')' :: (more ++ ')' :: rest)) := by simp
    rw [hcut, afterParen?, ihinner, afterParen?]
    exact ihmore depth rest
  | @quoted quote body more hquote hbody _ ih =>
    have hcut : quote :: (body ++ quote :: more) ++ ')' :: rest
        = quote :: (body ++ quote :: (more ++ ')' :: rest)) := by simp
    have hclosed : afterQuoted? quote (body ++ quote :: (more ++ ')' :: rest))
        = some (more ++ ')' :: rest) := (afterQuoted?_eq_some_iff hquote).mpr ⟨body, hbody, rfl⟩
    rw [hcut, afterParen?_quote hquote, hclosed]
    exact ih depth rest
  | @comment comment more hcomment _ ih =>
    rw [← ih depth rest, List.append_assoc]
    cases hcomment with
    | @line body hbody =>
      have hafter : afterLine (body ++ '\n' :: (more ++ ')' :: rest))
          = '\n' :: (more ++ ')' :: rest) := afterLine_body hbody (by simp)
      have hcut : '/' :: '/' :: (body ++ ['\n']) ++ (more ++ ')' :: rest)
          = '/' :: '/' :: (body ++ '\n' :: (more ++ ')' :: rest)) := by simp
      rw [hcut, afterParen?, hafter]
      exact afterParen?_other (by decide) (by decide) (by decide) (by simp)
    | @block body hbody =>
      have hcut : '/' :: '*' :: (body ++ ['*', '/']) ++ (more ++ ')' :: rest)
          = '/' :: '*' :: (body ++ '*' :: '/' :: (more ++ ')' :: rest)) := by simp
      rw [hcut, afterParen?_block, afterBlock?_comment hbody, Option.bind_some]
  | @other c more hopen hclose hquote hcomment _ ih =>
    rw [List.cons_append, afterParen?_other hopen hclose hquote]
    · exact ih depth rest
    · intro hc
      have hmore := hcomment hc
      cases more with
      | nil => simp
      | cons d more => exact hmore

/-! ## Calls -/

/-- A name is not taken for trivia. -/
lemma skipTrivia_name {name : List Char} (hname : IsName name) (rest : List Char) :
    skipTrivia (name ++ rest) = name ++ rest := by
  obtain ⟨c, tail, rfl⟩ := List.exists_cons_of_ne_nil hname.ne_nil
  have hc : isNameChar c = true := hname.chars c (by simp)
  rw [List.cons_append]
  apply skipTrivia_cons (isSpace_of_isNameChar hc)
  rintro rfl
  exact absurd hc (by decide)

/-- Trivia end a name. -/
lemma Trivia.head {trivia : List Char} (h : Trivia trivia) :
    ∀ c ∈ trivia.head?, isNameChar c = false := by
  cases h with
  | nil => simp
  | @space c _ hc _ =>
    intro d hd
    obtain rfl := Option.some.inj hd
    exact isNameChar_of_isBlank (isBlank_of_isSpace hc)
  | comment hcomment _ =>
    intro d hd
    obtain rfl : '/' = d := by cases hcomment <;> exact Option.some.inj hd
    decide

/-- **One call,** by what the parts of the scanner leave behind the dot, the name and the parenthesis.
-/
lemma calls?_step {text dotted behind arguments after : List Char} {name : String}
    (hdot : skipTrivia text = '.' :: dotted) (hnamed : skipTrivia dotted = name.toList ++ behind)
    (hname : IsName name.toList) (hend : ∀ c ∈ behind.head?, isNameChar c = false)
    (hopen : skipTrivia behind = '(' :: arguments) (hclose : afterParen? 0 arguments = some after) :
    calls? text = (calls? after).map fun found => (name :: found.1, found.2) := by
  have htake : (skipTrivia dotted).takeWhile isNameChar = name.toList := by
    rw [hnamed]
    exact takeWhile_run hname.chars hend
  have hdrop : (skipTrivia dotted).dropWhile isNameChar = behind := by
    rw [hnamed]
    exact dropWhile_run hname.chars hend
  rw [calls?]
  split
  · rename_i found heq
    rw [hdot] at heq
    obtain ⟨-, rfl⟩ := List.cons.inj heq
    dsimp only
    rw [htake, if_neg (by simpa using hname.ne_nil)]
    split
    · rename_i opened heq
      rw [hdrop, hopen] at heq
      obtain ⟨-, rfl⟩ := List.cons.inj heq
      split
      · rename_i found hfound
        rw [hclose] at hfound
        obtain rfl := Option.some.inj hfound
        rw [String.ofList_toList]
        cases calls? after <;> rfl
      · rename_i hnone
        rw [hclose] at hnone
        simp at hnone
    · rename_i hnot
      rw [hdrop] at hnot
      exact absurd hopen (hnot arguments)
  · rename_i hnot
    exact absurd hdot (hnot dotted)

/-- A call is read, whatever follows. -/
lemma calls?_of_call {name : String} {call : List Char} (h : Call name call) (rest : List Char) :
    calls? (call ++ rest) = (calls? rest).map fun found => (name :: found.1, found.2) := by
  obtain ⟨hbefore, hbetween, hbehind, harguments, hne, hchars⟩ := h
  rename_i before between behind arguments
  have hname : IsName name.toList := ⟨hne, hchars⟩
  have hcut : before ++ '.' :: (between ++ name.toList ++ (behind ++ '(' :: (arguments ++ [')'])))
      ++ rest = before ++ '.' :: (between ++ (name.toList ++ (behind ++ '(' ::
        (arguments ++ ')' :: rest)))) := by simp
  have hdot : skipTrivia ('.' :: (between ++ (name.toList ++ (behind ++ '(' ::
      (arguments ++ ')' :: rest))))) = '.' :: (between ++ (name.toList ++ (behind ++ '(' ::
        (arguments ++ ')' :: rest)))) := skipTrivia_cons (by decide) (by simp)
  have hopen : skipTrivia ('(' :: (arguments ++ ')' :: rest)) = '(' :: (arguments ++ ')' :: rest) :=
    skipTrivia_cons (by decide) (by simp)
  have hend : ∀ c ∈ (behind ++ '(' :: (arguments ++ ')' :: rest)).head?, isNameChar c = false := by
    intro c hc
    cases behind with
    | nil =>
      obtain rfl := Option.some.inj hc
      decide
    | cons d behind => exact hbehind.head c hc
  rw [hcut]
  apply calls?_step ((skipTrivia_append hbefore _).trans hdot)
    ((skipTrivia_append hbetween _).trans (skipTrivia_name hname _)) hname hend
    ((skipTrivia_append hbehind _).trans hopen)
  rw [afterParen?_balanced harguments, afterParen?]

/-- Where no dot follows the trivia, there are no calls. -/
lemma calls?_of_not_dot {text : List Char} (h : (skipTrivia text).head? ≠ some '.') :
    calls? text = some ([], text) := by
  rw [calls?]
  split
  · rename_i dotted hdot
    simp [hdot] at h
  · rfl

/-- **Calls are read,** up to a text with which no further call starts. -/
lemma calls?_of_calls {names : List String} {calls : List Char} (h : Calls names calls)
    {rest : List Char} (hrest : (skipTrivia rest).head? ≠ some '.') :
    calls? (calls ++ rest) = some (names, rest) := by
  induction h with
  | nil => exact calls?_of_not_dot hrest
  | cons hcall _ ih =>
    rw [List.append_assoc, calls?_of_call hcall, ih]
    rfl

/-- **Chains are read exactly:** a chain is one call or more, and past the trivia behind it there is no
dot. -/
lemma chain?_eq_some_iff {text rest : List Char} {names : List String} :
    chain? text = some (names, rest) ↔
      names ≠ [] ∧ ∃ calls, text = calls ++ rest ∧ Calls names calls ∧
        (skipTrivia rest).head? ≠ some '.' := by
  refine ⟨exists_chain, ?_⟩
  rintro ⟨hne, calls, rfl, hcalls, hrest⟩
  obtain ⟨name, names, rfl⟩ := List.exists_cons_of_ne_nil hne
  rw [chain?, calls?_of_calls hcalls hrest]

/-! ## Positions -/

/-- The text from `start` to `stop` is one call or more, of these methods, and past the trivia behind
them there is no dot. -/
structure ChainAt (text : List Char) (start stop : Nat) (names : List String) : Prop where
  /-- The positions are in order and in the text. -/
  bounds : start ≤ stop ∧ stop ≤ text.length
  /-- There is a call. -/
  nonempty : names ≠ []
  /-- Between the positions there are calls and nothing else. -/
  calls : Calls names ((text.drop start).take (stop - start))
  /-- No call or member follows. -/
  ends : ∀ rest, PastTrivia (text.drop stop) rest → rest.head? ≠ some '.'

/-- The scanner reads such a chain. -/
lemma ChainAt.chain?_drop {text : List Char} {start stop : Nat} {names : List String}
    (h : ChainAt text start stop names) : chain? (text.drop start) = some (names, text.drop stop) := by
  have hcut : text.drop start = (text.drop start).take (stop - start) ++ text.drop stop := by
    have hdrop : text.drop stop = (text.drop start).drop (stop - start) := by
      rw [List.drop_drop, Nat.add_sub_cancel' h.bounds.1]
    rw [hdrop, List.take_append_drop]
  exact chain?_eq_some_iff.mpr
    ⟨h.nonempty, _, hcut, h.calls, skipTrivia_head_ne_iff.mpr h.ends⟩

/-- The chain that starts at a position: its names, and the position behind it. -/
def chainFrom? (text : List Char) (start : Nat) : Option (List String × Nat) :=
  (chain? (text.drop start)).map fun found => (found.1, text.length - found.2.length)

/-- **A chain is found exactly where one stands.** -/
lemma chainFrom?_eq_some_iff {text : List Char} {start stop : Nat} {names : List String} :
    chainFrom? text start = some (names, stop) ↔ ChainAt text start stop names := by
  unfold chainFrom?
  rw [Option.map_eq_some_iff]
  constructor
  · rintro ⟨⟨names', rest⟩, hchain, heq⟩
    obtain ⟨rfl, rfl⟩ := Prod.mk.inj heq
    obtain ⟨hne, calls, htext, hcalls, hrest⟩ := chain?_eq_some_iff.mp hchain
    have hlength : text.length - start = calls.length + rest.length := by
      rw [← List.length_drop, htext, List.length_append]
    have hstart : start < text.length := by
      obtain ⟨front, -, hfront, -⟩ := chain?_ends hchain
      have hfull := congrArg List.length hfront
      rw [List.length_drop, List.length_append, List.length_cons] at hfull
      omega
    have hstop : text.length - rest.length = start + calls.length := by omega
    rw [hstop]
    refine ⟨⟨by omega, by omega⟩, hne, ?_, ?_⟩
    · rw [Nat.add_sub_cancel_left, htext, List.take_left]
      exact hcalls
    · rw [← List.drop_drop, htext, List.drop_left]
      exact skipTrivia_head_ne_iff.mp hrest
  · intro h
    refine ⟨(names, text.drop stop), h.chain?_drop, ?_⟩
    dsimp only
    rw [List.length_drop, Nat.sub_sub_self h.bounds.2]

end CachedRoutes.Code
