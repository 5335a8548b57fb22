import CachedRoutes.Proofs.Code.Span
import CachedRoutes.Proofs.Query.Match

/-!
# Queries in code

A query in a comment or in quoted text is not to be wrapped. Only the start of its declaration is
looked up in the spans, though, and a comment or a quote can still open between the braces.

* **Declarations.** `exists_declaredIn`: in front of the `await` of a query there is `const {`, what is
  bound, and `} =`, and the declaration starts in code.
* **One place is left** (`await_in_code_iff`): `await` is code as well, unless something opens between
  the braces and does not close in front of `await`. `await_in_comment` has such queries, one for each
  kind of comment and of quote.
-/

namespace CachedRoutes.Query

/-! ## Declarations -/

/-- How a text is cut at the declaration of a query: what stands in front of it, the declarator with
the opening brace, what is bound, the closing brace with the equals sign, and the text from `await`
on. -/
structure DeclaredIn (query : Query) (text front lead bindings link rest : List Char) : Prop where
  /-- The parts make up the text. -/
  text_eq : text = front ++ lead ++ (bindings ++ link ++ rest)
  awaitAt_eq : query.awaitAt = (front ++ lead ++ (bindings ++ link)).length
  lead_eq : ∃ keyword gap, lead = keyword ++ gap ++ ['\x7b'] ∧
    (keyword = "const".toList ∨ keyword = "let".toList) ∧ ∀ c ∈ gap, Text.isBlank c = true
  no_brace : ∀ c ∈ bindings, c ≠ '\x7b' ∧ c ≠ '\x7d'
  binds : Text.hasWord "data".toList none bindings = true
  link_eq : ∃ gap gap', link = '\x7d' :: gap ++ '=' :: gap' ∧
    (∀ c ∈ gap, Text.isBlank c = true) ∧ ∀ c ∈ gap', Text.isBlank c = true
  awaits : "await".toList <+: rest
  /-- The declaration starts in code. -/
  starts_in_code : ∀ span ∈ Code.spans text, span.covers front.length = false

/-- A head that is accepted starts in code and binds `data`. -/
lemma judge_accepted_starts {text : List Char} {inert : List Code.Span} {head : Head} {query : Query}
    (h : judge text inert head = .accepted query) :
    (∀ span ∈ inert, span.covers head.start = false) ∧
      Text.hasWord "data".toList none head.bindings = true := by
  unfold judge at h
  split at h
  · simp at h
  · rename_i hinert
    split at h
    · simp at h
    · rename_i hdata
      constructor
      · rw [List.any_eq_true, not_exists] at hinert
        intro span hspan
        rw [Bool.eq_false_iff]
        exact fun hcovers => hinert span ⟨hspan, hcovers⟩
      · simpa using hdata

/-- **A query is declared in front of its `await`.** -/
lemma exists_declaredIn {wrapping : Settings.Wrapping} {text : List Char} {query : Query}
    (h : query ∈ findAll wrapping text) :
    ∃ front lead bindings link rest, DeclaredIn query text front lead bindings link rest := by
  obtain ⟨head, hhead, haccepted⟩ := exists_head_of_mem_findAll h
  obtain ⟨hcode, hdata⟩ := judge_accepted_starts haccepted
  obtain ⟨-, -, -, -, -, hawaitAt, -⟩ := judge_accepted haccepted
  obtain ⟨front, statement, before, rfl, hstatement⟩ := mem_headsFrom hhead
  unfold head? at hstatement
  obtain ⟨-, -, hstatement⟩ := Option.bind_eq_some_iff.mp hstatement
  obtain ⟨declared, hdeclared, hstatement⟩ := Option.bind_eq_some_iff.mp hstatement
  obtain ⟨⟨bindings, assigned⟩, hbraced, hstatement⟩ := Option.bind_eq_some_iff.mp hstatement
  obtain ⟨awaited, hawaited, hstatement⟩ := Option.bind_eq_some_iff.mp hstatement
  obtain ⟨fetched, hfetched, hstatement⟩ := Option.bind_eq_some_iff.mp hstatement
  obtain ⟨⟨width, client⟩, -, hstatement⟩ := Option.bind_eq_some_iff.mp hstatement
  obtain rfl := Option.some.inj hstatement
  obtain ⟨keyword, rfl, hkeyword⟩ := afterDeclarator?_eq_some hdeclared
  obtain ⟨gap, rfl, hgap, hbrace⟩ := braced?_eq_some hbraced
  obtain ⟨gap₁, gap₂, rfl, hgap₁, hgap₂⟩ := afterEquals?_eq_some hawaited
  refine ⟨front, keyword ++ gap ++ ['\x7b'], bindings, '\x7d' :: gap₁ ++ '=' :: gap₂, awaited,
    by simp, ?_, ⟨keyword, gap, rfl, hkeyword, hgap⟩, hbrace, hdata, ⟨gap₁, gap₂, rfl, hgap₁, hgap₂⟩,
    ⟨fetched, (Text.after?_eq_some_iff.mp hfetched).symm⟩, ?_⟩
  · rw [hawaitAt]
    simp only [List.length_append, List.length_cons, List.length_nil]
    omega
  · intro span hspan
    simpa using hcode span hspan

/-! ## From the declaration to `await` -/

namespace DeclaredIn

variable {query : Query} {text front lead bindings link rest : List Char}

/-- No character in front of the bindings opens a comment or a quoted text. -/
lemma lead_marks (h : DeclaredIn query text front lead bindings link rest) :
    ∀ c ∈ lead, Code.isInertMark c = false := by
  obtain ⟨keyword, gap, rfl, hkeyword, hgap⟩ := h.lead_eq
  have hletters : keyword.all (fun c => !Code.isInertMark c) = true := by
    rcases hkeyword with rfl | rfl <;> decide
  intro c hc
  rw [List.mem_append, List.mem_append, List.mem_singleton] at hc
  rcases hc with (hc | hc) | rfl
  · simpa using List.all_eq_true.mp hletters c hc
  · exact Code.isInertMark_of_isBlank (hgap c hc)
  · decide

/-- No character between the bindings and `await` opens a comment or a quoted text. -/
lemma link_marks (h : DeclaredIn query text front lead bindings link rest) :
    ∀ c ∈ link ++ ['a'], Code.isInertMark c = false := by
  obtain ⟨gap, gap', rfl, hgap, hgap'⟩ := h.link_eq
  intro c hc
  simp only [List.mem_append, List.mem_cons, List.mem_nil_iff, or_false] at hc
  rcases hc with ((rfl | hc) | rfl | hc) | rfl
  · decide
  · exact Code.isInertMark_of_isBlank (hgap c hc)
  · decide
  · exact Code.isInertMark_of_isBlank (hgap' c hc)
  · decide

/-- No span goes across the opening brace. -/
lemma seam (h : DeclaredIn query text front lead bindings link rest) :
    ∀ span ∈ Code.spans (front ++ lead ++ (bindings ++ link ++ rest)),
      span.stop ≤ (front ++ lead).length ∨ (front ++ lead).length ≤ span.start := by
  intro span hspan
  rcases Code.start_of_no_mark h.lead_marks hspan with hstart | hstart
  · -- a span that starts earlier would cover the start of the declaration
    have hcode := h.starts_in_code span (h.text_eq ▸ hspan)
    rw [Bool.eq_false_iff, ne_eq, Code.Span.covers_iff] at hcode
    rw [List.length_append]
    omega
  · exact .inr hstart

/-- No span starts between the closing brace and `await`. -/
lemma start_cases (h : DeclaredIn query text front lead bindings link rest) {span : Code.Span}
    (hspan : span ∈ Code.spans (bindings ++ link ++ rest)) :
    span.start < bindings.length ∨ (bindings ++ link).length < span.start := by
  obtain ⟨tail, rfl⟩ := h.awaits
  have hcut : bindings ++ link ++ ("await".toList ++ tail)
      = bindings ++ (link ++ ['a']) ++ ("wait".toList ++ tail) := by
    have hawait : "await".toList = 'a' :: "wait".toList := rfl
    rw [hawait]
    simp
  rw [hcut] at hspan
  rcases Code.start_of_no_mark h.link_marks hspan with hstart | hstart
  · exact .inl hstart
  · right
    simp only [List.length_append, List.length_cons, List.length_nil] at hstart ⊢
    omega

end DeclaredIn

/-- The spans behind the opening brace decide whether `await` is code. -/
lemma DeclaredIn.await_in_code {query : Query} {text front lead bindings link rest : List Char}
    (h : DeclaredIn query text front lead bindings link rest) :
    (∀ span ∈ Code.spans text, span.covers query.awaitAt = false) ↔
      ∀ span ∈ Code.spans (bindings ++ link ++ rest), span.start < bindings.length →
        span.stop ≤ (bindings ++ link).length := by
  obtain ⟨before, hbefore, hspans⟩ := Code.spans_append h.seam
  have hawait : query.awaitAt = (bindings ++ link).length + (front ++ lead).length := by
    rw [h.awaitAt_eq, List.length_append, Nat.add_comm]
  rw [h.text_eq, hspans]
  constructor
  · intro hcode span hspan hstart
    have hshift := hcode _ (List.mem_append_right _ (List.mem_map_of_mem hspan))
    rw [hawait, Code.Span.covers_shift, Bool.eq_false_iff, ne_eq, Code.Span.covers_iff] at hshift
    rw [List.length_append] at hshift ⊢
    omega
  · intro hcloses span hspan
    rw [Bool.eq_false_iff, ne_eq]
    rcases List.mem_append.mp hspan with hspan | hspan
    · have hstop := hbefore span hspan
      rw [Code.Span.covers_iff]
      omega
    · obtain ⟨alone, halone, rfl⟩ := List.mem_map.mp hspan
      rw [hawait, Code.Span.covers_shift, Code.Span.covers_iff]
      rcases h.start_cases halone with hstart | hstart
      · have hstop := hcloses alone halone hstart
        omega
      · omega

/-- **When the `await` of a query is code.** Every query of a text is declared in front of its `await`,
and the declaration starts in code. Read from the opening brace on, the text has its own spans, and
`await` lies outside of all comments and quoted texts exactly if each of these that starts between the
braces ends in front of `await`. This is so if no slash and no quote stands between the braces. -/
theorem await_in_code_iff {wrapping : Settings.Wrapping} {text : List Char} {query : Query}
    (h : query ∈ findAll wrapping text) :
    (∃ front lead bindings link rest, DeclaredIn query text front lead bindings link rest) ∧
      ∀ front lead bindings link rest, DeclaredIn query text front lead bindings link rest →
        ((∀ span ∈ Code.spans text, span.covers query.awaitAt = false) ↔
          ∀ span ∈ Code.spans (bindings ++ link ++ rest), span.start < bindings.length →
            span.stop ≤ (bindings ++ link).length) ∧
        ((∀ c ∈ bindings, Code.isInertMark c = false) →
          ∀ span ∈ Code.spans text, span.covers query.awaitAt = false) := by
  refine ⟨exists_declaredIn h, ?_⟩
  intro front lead bindings link rest hdeclared
  refine ⟨hdeclared.await_in_code, ?_⟩
  intro hquiet
  refine hdeclared.await_in_code.mpr fun span hspan hstart => ?_
  -- nothing starts between braces without a mark
  have hspan' : span ∈ Code.spans ([] ++ bindings ++ (link ++ rest)) := by simpa using hspan
  rcases Code.start_of_no_mark hquiet hspan' with hnever | hlate
  · exact absurd hnever (Nat.not_lt_zero _)
  · rw [List.nil_append] at hlate
    omega

/-- A query that stands behind a comment, with a comment between its braces. -/
theorem await_in_code_iff_rows :
    let text := "/**/const \x7bdata/**/\x7d = await supabase.from('a').select()\n".toList
    let query : Query := ⟨23, 29, 56, "supabase", .select⟩
    query ∈ findAll {} text ∧ ∀ span ∈ Code.spans text, span.covers query.awaitAt = false := by
  intro text query
  have htext : text = _ := String.toList_ofList
  have hquery : query ∈ findAll {} text := by
    rw [htext]
    decide +kernel
  refine ⟨hquery, ?_⟩
  have hblank : ∀ c ∈ [' '], Text.isBlank c = true := by
    intro c hc
    obtain rfl := List.mem_singleton.mp hc
    decide
  have hbraces : "data/**/".toList.all (fun c => c != '\x7b' && c != '\x7d') = true := by decide
  have hdeclared : DeclaredIn query text "/**/".toList "const \x7b".toList "data/**/".toList
      "\x7d = ".toList "await supabase.from('a').select()\n".toList := by
    refine ⟨by decide +kernel, by decide, ⟨"const".toList, [' '], by decide, .inl rfl, hblank⟩, ?_,
      by decide +kernel, ⟨[' '], [' '], by decide, hblank, hblank⟩, by decide, by decide +kernel⟩
    intro c hc
    simpa using List.all_eq_true.mp hbraces c hc
  obtain ⟨-, hall⟩ := await_in_code_iff hquery
  obtain ⟨hiff, -⟩ := hall _ _ _ _ _ hdeclared
  exact hiff.mpr (by decide +kernel)

/-- **Queries that are found although they are commented out or quoted,** one for each kind of comment
and of quote. What is bound is followed by a comment or a quoted text with a closing brace in it. -/
theorem await_in_comment :
    let texts :=
      ["const \x7b data // \x7d = await supabase.from('users').select('*')\n\x7d = await load()\n",
       "const \x7b data /*\n\x7d = await supabase.from('a').select()\n*/ \x7d = await load()\n",
       "const \x7b data = '\x7d = await supabase.from(\"a\").select()\n",
       "const \x7b data = \"\x7d = await supabase.from('a').select()\n",
       "const \x7b data = \x60\x7d = await supabase.from('a').select()\n\x60 \x7d = await load()\n"]
    ∀ text ∈ texts, ∃ query ∈ findAll {} text.toList,
      ∃ span ∈ Code.spans text.toList, span.covers query.awaitAt = true := by
  simp only [List.forall_mem_cons, List.not_mem_nil, false_implies, implies_true, and_true]
  refine ⟨?_, ?_, ?_, ?_, ?_⟩ <;> rw [String.toList_ofList] <;> decide +kernel

end CachedRoutes.Query
