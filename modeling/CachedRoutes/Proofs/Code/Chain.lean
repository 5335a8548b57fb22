import CachedRoutes.Proofs.Code.Token
import CachedRoutes.Proofs.Code.Trivia

/-!
# The grammar of call chains

The scanner of call chains returns method names and a rest. Here is the grammar of what it has read by
then, as relations of their own.

* **Trivia** (`Trivia`): blanks and comments. A line comment takes its line feed along.
* **Balanced text** (`Balanced`): parentheses in pairs, where those in quoted texts and in comments do
  not count.
* **Calls** (`Call`, `Calls`): `.name(…)`, with trivia in front of the dot, the name and the parenthesis.
* **Soundness** (`exists_calls`): the scanner reads calls and nothing else, under the names they have,
  and stops where no further call follows.
-/

namespace CachedRoutes.Code

/-! ## Comments and trivia -/

/-- A comment that is closed, by a line feed or by `*/`. -/
inductive Comment : List Char → Prop where
  | line {body : List Char} (hbody : '\n' ∉ body) : Comment ('/' :: '/' :: (body ++ ['\n']))
  | block {body : List Char} (hbody : ¬ ['*', '/'] <:+: body) :
      Comment ('/' :: '*' :: (body ++ ['*', '/']))

/-- Blanks and comments. -/
inductive Trivia : List Char → Prop where
  | nil : Trivia []
  | space {c : Char} {rest : List Char} (hc : isSpace c = true) (hrest : Trivia rest) :
      Trivia (c :: rest)
  | comment {comment rest : List Char} (hcomment : Comment comment) (hrest : Trivia rest) :
      Trivia (comment ++ rest)

/-- A line comment ends with a line feed or with the text. -/
lemma exists_line_body (line : List Char) :
    ∃ body, '\n' ∉ body ∧
      (line = body ∧ afterLine line = [] ∨
        ∃ rest, line = body ++ '\n' :: rest ∧ afterLine line = '\n' :: rest) := by
  have hcut : line.takeWhile (· != '\n') ++ afterLine line = line := List.takeWhile_append_dropWhile
  refine ⟨line.takeWhile (· != '\n'), ?_, ?_⟩
  · intro hmem
    have := List.mem_takeWhile_imp hmem
    simp at this
  · unfold afterLine at hcut ⊢
    cases hrest : line.dropWhile (· != '\n') with
    | nil =>
      rw [hrest, List.append_nil] at hcut
      exact .inl ⟨hcut.symm, rfl⟩
    | cons c rest =>
      have hhead := List.head?_dropWhile_not (· != '\n') line
      rw [hrest] at hhead
      obtain rfl : c = '\n' := by simpa using hhead
      rw [hrest] at hcut
      exact .inr ⟨rest, hcut.symm, rfl⟩

/-- In front of a chain of calls a name ends. -/
lemma head_of_chain {rest tail : List Char} (h : skipTrivia rest = '.' :: tail) :
    ∀ c ∈ rest.head?, isNameChar c = false := by
  obtain ⟨d, tail, rfl, hd⟩ := head_of_skipTrivia h
  intro c hc
  obtain rfl : d = c := by simpa using hc
  rcases hd with hd | rfl | rfl
  · exact isNameChar_of_isBlank (isBlank_of_isSpace hd)
  · decide
  · decide

/-- A block comment ends with the first `*/` behind its opening. -/
lemma exists_block_body {text rest : List Char} (h : afterBlock? text = some rest) :
    ∃ body, ¬ ['*', '/'] <:+: body ∧ text = body ++ '*' :: '/' :: rest := by
  fun_induction afterBlock? text with
  | case1 => simp at h
  | case2 tail =>
    obtain rfl := Option.some.inj h
    exact ⟨[], by simp, rfl⟩
  | case3 c text hopen ih =>
    obtain ⟨body, hbody, rfl⟩ := ih h
    refine ⟨c :: body, ?_, rfl⟩
    intro hinfix
    rcases List.infix_cons_iff.mp hinfix with hstart | hlater
    · -- the first two characters would have ended the comment
      obtain ⟨tail, htail⟩ := hstart
      obtain ⟨rfl, hbody'⟩ := List.cons.inj htail
      cases body with
      | nil => simp at hbody'
      | cons d body =>
        obtain ⟨rfl, -⟩ := List.cons.inj hbody'
        exact hopen _ rfl rfl
    · exact hbody hlater

/-- **What is skipped in front of a token is trivia.** -/
lemma exists_trivia {text rest : List Char} {c : Char} (h : skipTrivia text = c :: rest) :
    ∃ trivia, Trivia trivia ∧ text = trivia ++ c :: rest := by
  -- by the length of the text: a comment takes many characters at once
  induction hn : text.length using Nat.strong_induction_on generalizing text with
  | _ n ih =>
    rw [skipTrivia.eq_def] at h
    split at h
    · simp at h
    · rename_i line
      obtain ⟨body, hbody, ⟨-, hnil⟩ | ⟨after, rfl, hafter⟩⟩ := exists_line_body line
      · rw [hnil, skipTrivia] at h
        simp at h
      · rw [hafter, skipTrivia_space (by decide)] at h
        have hlength : after.length < n := by
          rw [← hn]
          simp only [List.length_cons, List.length_append]
          omega
        obtain ⟨trivia, htrivia, rfl⟩ := ih _ hlength h rfl
        exact ⟨_, .comment (.line hbody) htrivia, by simp⟩
    · rename_i block
      unfold afterBlock at h
      cases hclosed : afterBlock? block with
      | none =>
        rw [hclosed, Option.getD_none, skipTrivia] at h
        simp at h
      | some after =>
        rw [hclosed, Option.getD_some] at h
        have hlength : after.length < n := by
          have := length_afterBlock?_lt hclosed
          rw [← hn]
          simp only [List.length_cons]
          omega
        obtain ⟨trivia, htrivia, rfl⟩ := ih _ hlength h rfl
        obtain ⟨body, hbody, rfl⟩ := exists_block_body hclosed
        exact ⟨_, .comment (.block hbody) htrivia, by simp⟩
    · rename_i d tail _ _
      split at h
      · rename_i hspace
        obtain ⟨trivia, htrivia, rfl⟩ := ih _ (by rw [← hn]; simp) h rfl
        exact ⟨_, .space hspace htrivia, rfl⟩
      · exact ⟨[], .nil, by rw [h]; rfl⟩

/-! ## Balanced text -/

/-- What stands between two quotes. The quote itself stands there only behind a backslash, and so does
a line feed, unless the quotes are backticks. -/
inductive Enclosed (quote : Char) : List Char → Prop where
  | nil : Enclosed quote []
  | char {c : Char} {rest : List Char} (hquote : c ≠ quote) (hescape : c ≠ '\\')
      (hfeed : c = '\n' → quote = backtick) (hrest : Enclosed quote rest) : Enclosed quote (c :: rest)
  | escape {c : Char} {rest : List Char} (hrest : Enclosed quote rest) :
      Enclosed quote ('\\' :: c :: rest)

/-- Text with its parentheses in pairs, apart from those in quoted texts and comments. -/
inductive Balanced : List Char → Prop where
  | nil : Balanced []
  | nested {inner rest : List Char} (hinner : Balanced inner) (hrest : Balanced rest) :
      Balanced ('(' :: (inner ++ ')' :: rest))
  | quoted {quote : Char} {body rest : List Char} (hquote : isQuote quote = true)
      (hbody : Enclosed quote body) (hrest : Balanced rest) :
      Balanced (quote :: (body ++ quote :: rest))
  | comment {comment rest : List Char} (hcomment : Comment comment) (hrest : Balanced rest) :
      Balanced (comment ++ rest)
  | other {c : Char} {rest : List Char} (hopen : c ≠ '(') (hclose : c ≠ ')')
      (hquote : isQuote c = false)
      (hcomment : c = '/' → rest.head? ≠ some '/' ∧ rest.head? ≠ some '*') (hrest : Balanced rest) :
      Balanced (c :: rest)

/-- What is read up to the end of a quoted text is a body in these quotes. -/
lemma exists_enclosed {quote : Char} {text rest : List Char}
    (h : afterQuoted? quote text = some rest) :
    ∃ body, Enclosed quote body ∧ text = body ++ quote :: rest := by
  fun_induction afterQuoted? quote text with
  | case1 => simp at h
  | case2 => simp at h
  | case3 c text ih =>
    obtain ⟨body, hbody, rfl⟩ := ih h
    exact ⟨_, .escape hbody, rfl⟩
  | case4 => simp at h
  | case5 =>
    obtain rfl := Option.some.inj h
    exact ⟨[], .nil, rfl⟩
  | case6 c text hlone hescaped hfeed hquote ih =>
    obtain ⟨body, hbody, rfl⟩ := ih h
    refine ⟨_, .char hquote ?_ ?_ hbody, rfl⟩
    · rintro rfl
      cases body with
      | nil => exact hescaped quote rest rfl rfl
      | cons d body => exact hescaped d _ rfl rfl
    · rintro rfl
      simpa using hfeed

/-- Balanced texts, each with a closing parenthesis behind it: what closes `depth` parentheses and one
more. -/
def Closes : Nat → List Char → Prop
  | 0, text => ∃ inner, Balanced inner ∧ text = inner ++ [')']
  | depth + 1, text => ∃ inner rest, Balanced inner ∧ text = inner ++ ')' :: rest ∧ Closes depth rest

/-- A text that closes parentheses starts with balanced text up to the first of them. -/
lemma Closes.exists_inner {depth : Nat} {text : List Char} (h : Closes depth text) :
    ∃ inner rest, Balanced inner ∧ text = inner ++ ')' :: rest ∧
      ∀ inner', Balanced inner' → Closes depth (inner' ++ ')' :: rest) := by
  cases depth with
  | zero =>
    obtain ⟨inner, hinner, rfl⟩ := h
    exact ⟨inner, [], hinner, rfl, fun inner' hinner' => ⟨inner', hinner', rfl⟩⟩
  | succ depth =>
    obtain ⟨inner, rest, hinner, rfl, hrest⟩ := h
    exact ⟨inner, rest, hinner, rfl, fun inner' hinner' => ⟨inner', rest, hinner', rfl, hrest⟩⟩

/-- Something in front of the first balanced text that keeps it balanced. -/
lemma Closes.prepend {depth : Nat} {text more : List Char} (h : Closes depth text)
    (hmore : ∀ inner rest, text = inner ++ ')' :: rest → Balanced inner → Balanced (more ++ inner)) :
    Closes depth (more ++ text) := by
  obtain ⟨inner, rest, hinner, rfl, hreplace⟩ := h.exists_inner
  rw [← List.append_assoc]
  exact hreplace _ (hmore inner rest rfl hinner)

/-- **A parenthesis is closed by balanced text.** -/
lemma exists_closes {depth : Nat} {text rest : List Char} (h : afterParen? depth text = some rest) :
    ∃ closing, text = closing ++ rest ∧ Closes depth closing := by
  fun_induction afterParen? depth text with
  | case1 => simp at h
  | case2 depth text ih =>
    obtain ⟨closing, rfl, inner, behind, hinner, rfl, hbehind⟩ := ih h
    refine ⟨'(' :: (inner ++ ')' :: behind), by simp, ?_⟩
    have hcut : '(' :: (inner ++ ')' :: behind) = '(' :: (inner ++ [')']) ++ behind := by simp
    rw [hcut]
    apply hbehind.prepend
    intro later tail _ hlater
    simpa using Balanced.nested hinner hlater
  | case3 text =>
    obtain rfl := Option.some.inj h
    exact ⟨[')'], rfl, [], .nil, rfl⟩
  | case4 text depth ih =>
    obtain ⟨closing, rfl, hclosing⟩ := ih h
    exact ⟨')' :: closing, rfl, [], closing, .nil, rfl, hclosing⟩
  | case5 depth line ih =>
    obtain ⟨closing, hafter, hclosing⟩ := ih h
    obtain ⟨body, hbody, ⟨-, hnil⟩ | ⟨after, rfl, hfeed⟩⟩ := exists_line_body line
    · -- nothing closes a parenthesis at the end of the text
      rw [hnil] at h
      simp [afterParen?] at h
    · rw [hfeed] at hafter
      refine ⟨'/' :: '/' :: body ++ closing, by simp [hafter], ?_⟩
      apply hclosing.prepend
      intro inner tail hinner hbalanced
      -- the line feed is the first character behind the comment
      rw [hinner] at hafter
      cases inner with
      | nil => simp at hafter
      | cons c inner =>
        obtain ⟨rfl, -⟩ := List.cons.inj hafter
        have hrest : Balanced inner := by
          generalize htext : '\n' :: inner = text at hbalanced
          cases hbalanced with
          | nil => simp at htext
          | nested => simp at htext
          | quoted hquote =>
            obtain ⟨rfl, -⟩ := List.cons.inj htext
            exact absurd hquote (by decide)
          | comment hcomment => cases hcomment <;> simp at htext
          | other _ _ _ _ hrest =>
            obtain ⟨-, rfl⟩ := List.cons.inj htext
            exact hrest
        simpa using Balanced.comment (.line hbody) hrest
  | case6 depth block after hclosed ih =>
    obtain ⟨closing, rfl, hclosing⟩ := ih h
    obtain ⟨body, hbody, rfl⟩ := exists_block_body hclosed
    refine ⟨'/' :: '*' :: (body ++ ['*', '/']) ++ closing, by simp, ?_⟩
    apply hclosing.prepend
    intro inner tail _ hbalanced
    exact .comment (.block hbody) hbalanced
  | case7 => simp at h
  | case8 depth quote text _ _ _ _ hquote after hclosed ih =>
    obtain ⟨closing, rfl, hclosing⟩ := ih h
    obtain ⟨body, hbody, rfl⟩ := exists_enclosed hclosed
    refine ⟨quote :: (body ++ [quote]) ++ closing, by simp, ?_⟩
    apply hclosing.prepend
    intro inner tail _ hbalanced
    simpa using Balanced.quoted hquote hbody hbalanced
  | case9 => simp at h
  | case10 depth c text hopen hclose hline hblock hquote ih =>
    obtain ⟨closing, rfl, hclosing⟩ := ih h
    refine ⟨[c] ++ closing, rfl, ?_⟩
    apply hclosing.prepend
    intro inner tail hinner hbalanced
    refine .other hopen hclose (by simpa using hquote) ?_ hbalanced
    rintro rfl
    cases inner with
    | nil => simp
    | cons d inner =>
      subst hinner
      constructor
      · intro hd
        obtain rfl : d = '/' := by simpa using hd
        exact hline _ rfl rfl
      · intro hd
        obtain rfl : d = '*' := by simpa using hd
        exact hblock _ rfl rfl

/-! ## Calls -/

/-- A call of a method: trivia, a dot, trivia, the name, trivia and arguments in parentheses. -/
inductive Call (name : String) : List Char → Prop where
  | mk {before between behind arguments : List Char} (hbefore : Trivia before)
      (hbetween : Trivia between) (hbehind : Trivia behind) (harguments : Balanced arguments)
      (hne : name.toList ≠ []) (hchars : ∀ c ∈ name.toList, isNameChar c = true) :
      Call name (before ++ '.' :: (between ++ name.toList ++ (behind ++ '(' :: (arguments ++ [')']))))

/-- Calls of the methods, in order. -/
inductive Calls : List String → List Char → Prop where
  | nil : Calls [] []
  | cons {name : String} {names : List String} {call rest : List Char} (hcall : Call name call)
      (hrest : Calls names rest) : Calls (name :: names) (call ++ rest)

/-- **The scanner reads calls,** under the names they have, and no further call follows. -/
lemma exists_calls {text rest : List Char} {names : List String}
    (h : calls? text = some (names, rest)) :
    ∃ calls, text = calls ++ rest ∧ Calls names calls ∧ (skipTrivia rest).head? ≠ some '.' := by
  fun_induction calls? text generalizing names rest
  case case2 text dotted hdot named name hname arguments hopen after hclose names' rest' hcalls ih =>
    obtain ⟨rfl, rfl⟩ := Prod.mk.inj (Option.some.inj h)
    obtain ⟨calls, rfl, hrest, hend⟩ := ih hcalls
    obtain ⟨before, hbefore, rfl⟩ := exists_trivia hdot
    obtain ⟨closing, rfl, inner, hinner, rfl⟩ := exists_closes hclose
    obtain ⟨behind, hbehind, hnamed⟩ := exists_trivia hopen
    have hchars : ∀ c ∈ name, isNameChar c = true := fun c hc => List.mem_takeWhile_imp hc
    have hname' : name ≠ [] := by simpa using hname
    have hcut : named = name ++ (behind ++ '(' :: (inner ++ [')'] ++ (calls ++ rest'))) := by
      rw [← hnamed]
      exact (List.takeWhile_append_dropWhile).symm
    -- a name does not start with a blank or a comment, so the trivia in front of it end there
    obtain ⟨between, hbetween, hdotted⟩ : ∃ between, Trivia between ∧ dotted = between ++ named := by
      obtain ⟨c, tail, hcons⟩ := List.exists_cons_of_ne_nil hname'
      rw [hcons, List.cons_append] at hcut
      obtain ⟨between, hbetween, heq⟩ := exists_trivia (show skipTrivia dotted = c :: _ from hcut)
      exact ⟨between, hbetween, by rw [heq, hcut]⟩
    refine ⟨before ++ '.' :: (between ++ name ++ (behind ++ '(' :: (inner ++ [')']))) ++ calls,
      ?_, .cons ?_ hrest, hend⟩
    · rw [hdotted, hcut]
      simp only [List.append_assoc, List.cons_append]
    · have hwritten : (String.ofList name).toList = name := String.toList_ofList
      rw [← hwritten] at hchars hname'
      nth_rewrite 2 [← hwritten]
      exact .mk hbefore hbetween hbehind hinner hname' hchars
  case case6 text hnot =>
    obtain ⟨rfl, rfl⟩ := Prod.mk.inj (Option.some.inj h)
    refine ⟨[], rfl, .nil, ?_⟩
    intro hhead
    obtain ⟨tail, htail⟩ := List.head?_eq_some_iff.mp hhead
    exact hnot tail htail
  all_goals simp at h

/-- A chain has a call, and its names are those of its calls. -/
lemma exists_chain {text rest : List Char} {names : List String}
    (h : chain? text = some (names, rest)) :
    names ≠ [] ∧ ∃ calls, text = calls ++ rest ∧ Calls names calls ∧
      (skipTrivia rest).head? ≠ some '.' := by
  unfold chain? at h
  split at h
  · simp at h
  · rename_i hne
    refine ⟨?_, exists_calls h⟩
    rintro rfl
    exact hne _ h

end CachedRoutes.Code
