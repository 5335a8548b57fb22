import CachedRoutes.Proofs.Code.Chain

/-!
# Where a statement ends

Behind an expression, its statement may be over or go on. What may still stand on the line is spaces,
tabs and comments.

* **The end of a statement.** `EndsThere`: past spaces, tabs and block comments on one line there is
  the end of the text, a semicolon, a line break, or a comment that reaches over the end of the line.
* **What is skipped** has no say (`endsThere_indent`, `endsThere_comment`).
* **The test** (`endsStatement_iff`): it lets a statement pass that ends there, and besides every
  statement with a block comment on its line, whatever follows the comment.
-/

namespace CachedRoutes.Code

/-! ## The end of a statement -/

/-- Line feed or carriage return. -/
def isBreak (c : Char) : Bool :=
  c == '\n' || c == '\r'

/-- A block comment that is closed on its line. -/
inductive InlineComment : List Char → Prop where
  | mk {body : List Char} (hbody : ¬ ['*', '/'] <:+: body) (hline : ∀ c ∈ body, isBreak c = false) :
      InlineComment ('/' :: '*' :: (body ++ ['*', '/']))

/-- Spaces, tabs and block comments on one line. -/
inductive Inline : List Char → Prop where
  | nil : Inline []
  | indent {c : Char} {rest : List Char} (hc : Text.isIndent c = true) (hrest : Inline rest) :
      Inline (c :: rest)
  | comment {comment rest : List Char} (hcomment : InlineComment comment) (hrest : Inline rest) :
      Inline (comment ++ rest)

/-- Texts in front of which a statement is over. -/
inductive Over : List Char → Prop where
  | nil : Over []
  | mark {c : Char} {rest : List Char} (hc : c = ';' ∨ isBreak c = true) : Over (c :: rest)
  | lineComment {line : List Char} : Over ('/' :: '/' :: line)
  /-- A block comment over several lines. -/
  | longComment {body rest : List Char} (hbody : ¬ ['*', '/'] <:+: body)
      (hbreak : ∃ c ∈ body, isBreak c = true) : Over ('/' :: '*' :: (body ++ '*' :: '/' :: rest))
  /-- A block comment that is not closed. -/
  | openComment {block : List Char} (hblock : ¬ ['*', '/'] <:+: block) :
      Over ('/' :: '*' :: block)

/-- A statement in front of the text ends on its line. -/
def EndsThere (text : List Char) : Prop :=
  ∃ gap rest, text = gap ++ rest ∧ Inline gap ∧ Over rest

/-- Spaces and tabs lead to a block comment that is closed on the line, and the text goes on behind
it. -/
def CommentAhead (text after : List Char) : Prop :=
  ∃ blanks comment, text = blanks ++ comment ++ after ∧
    (∀ c ∈ blanks, Text.isIndent c = true) ∧ InlineComment comment

/-! ## What is skipped -/

/-- Behind its opening, a block comment without an end has no closing mark. -/
lemma not_infix_of_afterBlock? {text : List Char} (h : afterBlock? text = none) :
    ¬ ['*', '/'] <:+: text := by
  fun_induction afterBlock? text with
  | case1 => simp
  | case2 => cases h
  | case3 c text hopen ih =>
    intro hinfix
    rcases List.infix_cons_iff.mp hinfix with hstart | hlater
    · obtain ⟨tail, htail⟩ := hstart
      obtain ⟨rfl, rfl⟩ := List.cons.inj htail
      exact hopen tail rfl rfl
    · exact ih h hlater

/-- A block comment ends at one place. -/
lemma block_unique {body body' rest rest' : List Char} (hbody : ¬ ['*', '/'] <:+: body)
    (hbody' : ¬ ['*', '/'] <:+: body')
    (h : body ++ '*' :: '/' :: rest = body' ++ '*' :: '/' :: rest') : body = body' ∧ rest = rest' := by
  have hrest : rest = rest' := by
    have hclosed := @afterBlock?_comment body rest hbody
    rw [h, afterBlock?_comment hbody'] at hclosed
    exact (Option.some.inj hclosed).symm
  subst hrest
  exact ⟨List.append_cancel_right h, rfl⟩

/-- A slash does not indent. -/
lemma isIndent_slash : Text.isIndent '/' = false := by decide

/-- Neither a space nor a tab is where a statement is over. -/
lemma not_over_indent {c : Char} {rest : List Char} (hc : Text.isIndent c = true) :
    ¬ Over (c :: rest) := by
  simp only [Text.isIndent, Bool.or_eq_true, beq_iff_eq] at hc
  intro hover
  cases hover with
  | mark h => rcases hc with rfl | rfl <;> exact absurd h (by decide)
  | lineComment => exact absurd hc (by decide)
  | longComment => exact absurd hc (by decide)
  | openComment => exact absurd hc (by decide)

/-- A comment on one line is not where a statement is over. -/
lemma not_over_comment {comment rest : List Char} (hcomment : InlineComment comment) :
    ¬ Over (comment ++ rest) := by
  obtain ⟨hbody, hline⟩ := hcomment
  rename_i body
  intro hover
  generalize htext : '/' :: '*' :: (body ++ ['*', '/']) ++ rest = text at hover
  cases hover with
  | nil => simp at htext
  | mark hc =>
    obtain ⟨rfl, -⟩ := List.cons.inj htext
    exact absurd hc (by decide)
  | lineComment => simp at htext
  | @longComment other tail hbody' hbreak =>
    have htail : body ++ '*' :: '/' :: rest = other ++ '*' :: '/' :: tail := by simpa using htext
    obtain ⟨rfl, -⟩ := block_unique hbody hbody' htail
    obtain ⟨c, hc, hbreak⟩ := hbreak
    rw [hline c hc] at hbreak
    exact Bool.noConfusion hbreak
  | openComment hblock =>
    refine hblock ⟨body, rest, ?_⟩
    simpa using htext

/-- **A space or a tab has no say.** -/
lemma endsThere_indent {c : Char} {rest : List Char} (hc : Text.isIndent c = true) :
    EndsThere (c :: rest) ↔ EndsThere rest := by
  constructor
  · rintro ⟨gap, tail, htext, hgap, hover⟩
    cases hgap with
    | nil =>
      rw [List.nil_append] at htext
      rw [← htext] at hover
      exact absurd hover (not_over_indent hc)
    | indent _ hgap =>
      obtain ⟨rfl, rfl⟩ := List.cons.inj htext
      exact ⟨_, tail, rfl, hgap, hover⟩
    | comment hcomment _ =>
      obtain ⟨_, _⟩ := hcomment
      obtain ⟨rfl, -⟩ := List.cons.inj htext
      rw [isIndent_slash] at hc
      exact Bool.noConfusion hc
  · rintro ⟨gap, tail, rfl, hgap, hover⟩
    exact ⟨c :: gap, tail, rfl, .indent hc hgap, hover⟩

/-- **A comment on one line has no say.** -/
lemma endsThere_comment {comment rest : List Char} (hcomment : InlineComment comment) :
    EndsThere (comment ++ rest) ↔ EndsThere rest := by
  constructor
  · rintro ⟨gap, tail, htext, hgap, hover⟩
    cases hgap with
    | nil =>
      rw [List.nil_append] at htext
      rw [← htext] at hover
      exact absurd hover (not_over_comment hcomment)
    | indent hc _ =>
      obtain ⟨_, _⟩ := hcomment
      obtain ⟨rfl, -⟩ := List.cons.inj htext
      rw [isIndent_slash] at hc
      exact Bool.noConfusion hc
    | @comment other gap hother hgap =>
      obtain ⟨hbody, _⟩ := hcomment
      obtain ⟨hbody', _⟩ := hother
      rename_i body _ body' _
      have htail : body ++ '*' :: '/' :: rest = body' ++ '*' :: '/' :: (gap ++ tail) := by
        simpa using htext
      obtain ⟨-, rfl⟩ := block_unique hbody hbody' htail
      exact ⟨gap, tail, rfl, hgap, hover⟩
  · rintro ⟨gap, tail, rfl, hgap, hover⟩
    exact ⟨comment ++ gap, tail, by simp, .comment hcomment hgap, hover⟩

/-- A comment ahead has no say either, nor have the blanks in front of it. -/
lemma CommentAhead.endsThere_iff {text after : List Char} (h : CommentAhead text after) :
    EndsThere text ↔ EndsThere after := by
  obtain ⟨blanks, comment, rfl, hblanks, hcomment⟩ := h
  induction blanks with
  | nil => exact endsThere_comment hcomment
  | cons c blanks ih =>
    rw [List.cons_append, List.cons_append, endsThere_indent (hblanks c List.mem_cons_self)]
    exact ih fun d hd => hblanks d (List.mem_cons_of_mem c hd)

/-! ## The test -/

/-- The test looks past spaces and tabs. -/
lemma endsStatement_indent {c : Char} {rest : List Char} (hc : Text.isIndent c = true) :
    endsStatement (c :: rest) = endsStatement rest := by
  have hskip : ((c :: rest).dropWhile fun c => c == ' ' || c == '\t')
      = rest.dropWhile fun c => c == ' ' || c == '\t' := List.dropWhile_cons_of_pos hc
  unfold endsStatement
  rw [hskip]

/-- Where the test finds no space and no tab, it looks at what is there. -/
lemma endsStatement_over {text : List Char} (h : Over text) : endsStatement text = true := by
  cases h with
  | nil => rfl
  | mark hc =>
    simp only [isBreak, Bool.or_eq_true, beq_iff_eq] at hc
    rcases hc with rfl | rfl | rfl <;> rfl
  | lineComment => rfl
  | longComment => rfl
  | openComment => rfl

/-- Without a space or a tab in front, the test finds an end or a comment on the line. -/
lemma over_or_comment {text : List Char} (hhead : ∀ c ∈ text.head?, Text.isIndent c = false)
    (h : endsStatement text = true) :
    Over text ∨ ∃ comment after, text = comment ++ after ∧ InlineComment comment := by
  have hdrop : (text.dropWhile fun c => c == ' ' || c == '\t') = text := by
    cases text with
    | nil => rfl
    | cons c rest =>
      rw [List.dropWhile_cons_of_neg]
      rw [Bool.not_eq_true]
      exact hhead c rfl
  unfold endsStatement at h
  rw [hdrop] at h
  split at h
  · exact .inl .nil
  · exact .inl .lineComment
  · rename_i block
    cases hclosed : afterBlock? block with
    | none => exact .inl (.openComment (not_infix_of_afterBlock? hclosed))
    | some after =>
      obtain ⟨body, hbody, rfl⟩ := exists_block_body hclosed
      by_cases hbreak : ∃ c ∈ body, isBreak c = true
      · exact .inl (.longComment hbody hbreak)
      · refine .inr ⟨_, after, ?_, .mk hbody ?_⟩
        · simp
        · intro c hc
          rw [Bool.eq_false_iff]
          exact fun hc' => hbreak ⟨c, hc, hc'⟩
  · rename_i c rest _ _ _
    refine .inl (.mark ?_)
    simpa only [isBreak, Bool.or_eq_true, beq_iff_eq, or_assoc] using h

/-- A blank in front of a comment changes nothing. -/
lemma commentAhead_indent {c : Char} {rest after : List Char} (hc : Text.isIndent c = true) :
    CommentAhead (c :: rest) after ↔ CommentAhead rest after := by
  constructor
  · rintro ⟨blanks, comment, htext, hblanks, hcomment⟩
    cases blanks with
    | nil =>
      obtain ⟨_, _⟩ := hcomment
      obtain ⟨rfl, -⟩ := List.cons.inj htext
      rw [isIndent_slash] at hc
      exact Bool.noConfusion hc
    | cons d blanks =>
      obtain ⟨rfl, rfl⟩ := List.cons.inj htext
      exact ⟨blanks, comment, rfl, fun e he => hblanks e (List.mem_cons_of_mem _ he), hcomment⟩
  · rintro ⟨blanks, comment, rfl, hblanks, hcomment⟩
    refine ⟨c :: blanks, comment, rfl, ?_, hcomment⟩
    exact List.forall_mem_cons.mpr ⟨hc, hblanks⟩

/-- **What the test lets pass:** statements that end there, and those with a block comment on their
line. -/
lemma endsStatement_iff {text : List Char} :
    endsStatement text = true ↔ EndsThere text ∨ ∃ after, CommentAhead text after := by
  induction text with
  | nil => exact iff_of_true rfl (.inl ⟨[], [], rfl, .nil, .nil⟩)
  | cons c rest ih =>
    by_cases hc : Text.isIndent c = true
    · rw [endsStatement_indent hc, endsThere_indent hc, ih]
      exact or_congr_right (exists_congr fun after => (commentAhead_indent hc).symm)
    · rw [Bool.not_eq_true] at hc
      constructor
      · intro h
        rcases over_or_comment (by simpa using hc) h with hover | ⟨comment, after, htext, hcomment⟩
        · exact .inl ⟨[], _, rfl, .nil, hover⟩
        · exact .inr ⟨after, [], comment, htext, by simp, hcomment⟩
      · rintro (⟨gap, tail, htext, hgap, hover⟩ | ⟨after, blanks, comment, htext, hblanks, hcomment⟩)
        · cases hgap with
          | nil =>
            rw [htext]
            exact endsStatement_over hover
          | indent hd _ =>
            obtain ⟨rfl, -⟩ := List.cons.inj htext
            rw [hc] at hd
            exact Bool.noConfusion hd
          | comment hcomment _ =>
            obtain ⟨_, _⟩ := hcomment
            rw [htext]
            rfl
        · cases blanks with
          | nil =>
            obtain ⟨_, _⟩ := hcomment
            rw [htext]
            rfl
          | cons d blanks =>
            obtain ⟨rfl, -⟩ := List.cons.inj htext
            rw [hblanks c List.mem_cons_self] at hc
            exact Bool.noConfusion hc

end CachedRoutes.Code
