import CachedRoutes.Proofs.Code.Chain
import CachedRoutes.Proofs.Code.Invocation
import CachedRoutes.Proofs.Eligibility.Handler
import CachedRoutes.Proofs.Query.Match

/-!
# What wrapping a query keeps and adds

* **The wrapper is called** (`callsFunction_wrapText`): the new text is recognised as cached, and is
  not wrapped again (`wrap_eq_alreadyWrapped_iff`).
* **The handler stays** (`hasGetHandler_wrapText`). A declaration in front of `await` ends in front
  of its `w`. None starts in the blanks behind `await`, since a chain of calls follows the client.
  One that starts between the calls ends in front of their last `)`.
-/

namespace CachedRoutes.Query

open Code (IsName isNameChar)

/-- The awaited expression stands behind the call of the wrapper, with further arguments behind
it. -/
lemma wrappedExpression_eq (wrapping : Settings.Wrapping) (policy : Policy)
    (parameters : List (List Char)) (indent : List Char) :
    ∃ front tail, ∀ expr, wrappedExpression wrapping policy parameters indent expr
      = "await".toList ++ ' ' :: (wrapping.wrapper.toList ++ '(' :: (front ++ expr ++ tail)) := by
  refine ⟨'\n' :: indent ++ "  async () => await ".toList, ",\n".toList ++ (indent ++ "  [".toList
    ++ keyLiteral wrapping.params.toList policy.keyBase.toList parameters ++ "],\n".toList ++ indent
    ++ "  \x7b revalidate: ".toList ++ (toString policy.revalidate).toList ++ ", tags: [".toList
    ++ (policy.tag.expression wrapping.registry).toList ++ "] \x7d\n".toList ++ indent
    ++ ")()".toList), ?_⟩
  intro expr
  have hawait : "await ".toList = "await".toList ++ [' '] := rfl
  have hopen : "(\n".toList = ['(', '\n'] := rfl
  unfold wrappedExpression
  rw [hawait, hopen]
  simp only [List.append_assoc, List.cons_append, List.nil_append]

/-! ## The call of the wrapper -/

/-- **The new text calls the wrapper.** -/
lemma callsFunction_wrapText (wrapping : Settings.Wrapping) (policy : Policy)
    (parameters : List (List Char)) (text : List Char) (query : Query) :
    Code.callsFunction wrapping.wrapper.toList (wrapText wrapping policy parameters text query)
      = true := by
  obtain ⟨front, tail, heq⟩ := wrappedExpression_eq wrapping policy parameters
    (indentAfter (text.take query.awaitAt))
  refine Code.callsFunction_iff.mpr ⟨text.take query.awaitAt ++ "await".toList ++ [' '], [],
    front ++ (text.take query.stop).drop query.exprAt ++ tail ++ text.drop query.stop, ?_, ?_, ?_⟩
  · unfold wrapText
    simp only [heq, List.append_assoc, List.cons_append, List.nil_append]
  · simp
  · intro c hc
    obtain rfl : ' ' = c := by simpa using hc
    decide

/-- A text counts as wrapped exactly if it calls the wrapper. -/
lemma wrap_eq_alreadyWrapped_iff {wrapping : Settings.Wrapping} {route : Route} {policy : Policy}
    {text : List Char} : wrap wrapping route policy text = .alreadyWrapped ↔
      Code.callsFunction wrapping.wrapper.toList text = true := by
  unfold wrap
  by_cases hcalls : Code.callsFunction wrapping.wrapper.toList text = true
  · simp [hcalls]
  · rw [if_neg hcalls]
    constructor
    · intro h
      split at h
      · simp at h
      · split at h <;> simp at h
      · simp at h
    · intro h
      exact absurd h hcalls

/-! ## The handler -/

/-- A client with a chain of calls behind it does not export a handler, also if its name is
`export`: no declaration starts with a dot or a comment. -/
lemma exportsGet_of_chain {gap client rest tail : List Char}
    (hgap : ∀ c ∈ gap, Text.isBlank c = true) (hclient : IsName client)
    (hchain : Code.skipTrivia rest = '.' :: tail) :
    Eligibility.exportsGet (gap ++ client ++ rest) = false := by
  rw [Bool.eq_false_iff]
  intro hexports
  obtain ⟨declared, hdeclared, hget⟩ := Option.any_eq_true _ _ |>.mp hexports
  obtain ⟨gap', hline, hne, hgap', hhead⟩ := Eligibility.afterSpaced?_eq_some_iff.mp hdeclared
  have hindent := List.takeWhile_append_dropWhile (p := Text.isIndent) (l := gap ++ client ++ rest)
  rw [hline] at hindent
  -- past the blanks, one side starts with the client and the other with `export`
  have hclientHead : ∀ c ∈ (client ++ rest).head?, Text.isBlank c = false := by
    obtain ⟨c, name, rfl⟩ := List.exists_cons_of_ne_nil hclient.ne_nil
    intro d hd
    obtain rfl : c = d := by simpa using hd
    by_contra hblank
    rw [Bool.not_eq_false] at hblank
    exact hclient.not_mem (Code.isNameChar_of_isBlank hblank) (by simp)
  have htrim : client ++ rest = "export".toList ++ (gap' ++ declared) := by
    have hleft : Text.trimStart (gap ++ (client ++ rest)) = client ++ rest :=
      Text.trimStart_append hgap hclientHead
    have hright : Text.trimStart ((gap ++ client ++ rest).takeWhile Text.isIndent
        ++ ("export".toList ++ (gap' ++ declared))) = "export".toList ++ (gap' ++ declared) :=
      Text.trimStart_append
        (fun c hc => Text.isBlank_of_isIndent (List.mem_takeWhile_imp hc)) (by simp [Text.isBlank])
    have hsame : gap ++ (client ++ rest) = (gap ++ client ++ rest).takeWhile Text.isIndent
        ++ ("export".toList ++ (gap' ++ declared)) := by simpa using hindent.symm
    rw [← hleft, ← hright, hsame]
  have hgapHead : ∀ c ∈ (gap' ++ declared).head?, isNameChar c = false := by
    obtain ⟨d, blanks, rfl⟩ := List.exists_cons_of_ne_nil hne
    intro c hc
    obtain rfl : d = c := by simpa using hc
    exact Code.isNameChar_of_isBlank (hgap' d (by simp))
  obtain ⟨-, rfl⟩ := hclient.eq_of_append
    (Code.isName_of_isIdentifier (by decide) : IsName "export".toList) (Code.head_of_chain hchain)
    hgapHead htrim
  obtain ⟨d, tail, hdot, hd⟩ := Code.trimStart_of_skipTrivia hchain
  rw [Text.trimStart_append hgap' hhead] at hdot
  subst hdot
  rcases hd with rfl | rfl <;>
    simp [Eligibility.declaresFunction, Eligibility.declaresVariable, Eligibility.afterSpaced?,
      Text.after?] at hget

/-- Where a line of the text starts: in front of `await`, in the blanks behind it, between the calls
or behind them. -/
lemma StandsIn.line_cases {wrapping : Settings.Wrapping} {query : Query}
    {text a gap calls b line : List Char} (h : StandsIn wrapping query text a gap calls b)
    (hclient : IsName query.client.toList) (hline : line ∈ Text.lineStarts text) :
    (∃ x ∈ Text.lineStarts a, line = x ++ ("await".toList ++ (gap ++ query.client.toList
      ++ calls ++ b))) ∨
    (∃ x, (∀ c ∈ x, Text.isBlank c = true) ∧ line = x ++ query.client.toList ++ (calls ++ b)) ∨
    (∃ x ∈ Text.afterLineFeeds calls, line = x ++ b) ∨ line ∈ Text.afterLineFeeds b := by
  have hcut : text = a ++ ("await".toList ++ (gap ++ (query.client.toList ++ (calls ++ b)))) := by
    rw [h.text_eq]
    simp
  have hword : Text.afterLineFeeds "await".toList = [] := by decide
  have hname : Text.afterLineFeeds query.client.toList = [] :=
    Text.afterLineFeeds_eq_nil (hclient.not_mem (by decide))
  rw [hcut, Text.lineStarts_append, Text.afterLineFeeds_append "await".toList, hword,
    Text.afterLineFeeds_append gap, Text.afterLineFeeds_append query.client.toList, hname,
    Text.afterLineFeeds_append calls] at hline
  simp only [List.map_nil, List.nil_append, List.mem_append, List.mem_map] at hline
  rcases hline with ⟨x, hx, rfl⟩ | ⟨x, hx, rfl⟩ | ⟨x, hx, rfl⟩ | hline
  · exact .inl ⟨x, hx, by simp⟩
  · obtain ⟨before, rfl⟩ := Text.mem_afterLineFeeds_iff.mp hx
    exact .inr (.inl ⟨x, fun c hc => h.gap_blank c (by simp [hc]), by simp⟩)
  · exact .inr (.inr (.inl ⟨x, hx, rfl⟩))
  · exact .inr (.inr (.inr hline))

/-- **The handler is still exported after the query was wrapped.** -/
lemma hasGetHandler_wrapText {wrapping : Settings.Wrapping} {query : Query}
    {text a gap calls b : List Char} (h : StandsIn wrapping query text a gap calls b)
    (hclient : IsName query.client.toList) (policy : Policy) (parameters : List (List Char))
    (hget : Eligibility.hasGetHandler text = true) :
    Eligibility.hasGetHandler (wrapText wrapping policy parameters text query) = true := by
  obtain ⟨⟨callsFront, hcalls⟩, tail, hchain⟩ := h.calls_ends
  obtain ⟨front, arguments, hexpr⟩ := wrappedExpression_eq wrapping policy parameters (indentAfter a)
  rw [h.wrapText_eq, hexpr]
  rw [Eligibility.hasGetHandler_iff] at hget ⊢
  obtain ⟨line, hline, hexports⟩ := hget
  rcases h.line_cases hclient hline with ⟨x, hx, rfl⟩ | ⟨x, hx, rfl⟩ | ⟨x, hx, rfl⟩ | hline
  · refine ⟨x ++ ("await".toList ++ ' ' :: (wrapping.wrapper.toList ++ '(' :: (front
      ++ (query.client.toList ++ calls) ++ arguments)) ++ b), ?_, ?_⟩
    · rw [List.append_assoc a, Text.lineStarts_append]
      exact List.mem_append_left _ (List.mem_map_of_mem hx)
    · have hreplace := fun z => Eligibility.exportsGet_replace (q := 'w') (x := x ++ ['a'])
        (y := "ait".toList ++ (gap ++ query.client.toList ++ calls ++ b)) (z := z) (by decide)
        (by simpa using hexports)
      simpa using hreplace ("wait".toList ++ ' ' :: (wrapping.wrapper.toList ++ '(' :: (front
        ++ (query.client.toList ++ calls) ++ arguments)) ++ b)
  · rw [exportsGet_of_chain hx hclient hchain] at hexports
    exact Bool.noConfusion hexports
  · obtain ⟨before, hbefore⟩ := Text.mem_afterLineFeeds_iff.mp hx
    obtain ⟨x', rfl⟩ : ∃ x', x = x' ++ [')'] := by
      rcases List.eq_nil_or_concat x with rfl | ⟨x', c, rfl⟩
      · have hlast := congrArg List.getLast? (hcalls.symm.trans hbefore)
        simp at hlast
      · have hlast : callsFront ++ [')'] = (before ++ '\n' :: x') ++ [c] := by
          rw [← hcalls, hbefore]
          simp
        obtain rfl : ')' = c := List.singleton_inj.mp (List.append_inj' hlast rfl).2
        exact ⟨x', by simp⟩
    refine ⟨x' ++ [')'] ++ (arguments ++ b), ?_, ?_⟩
    · refine Text.mem_lineStarts_iff.mpr (.inr ⟨a ++ "await".toList ++ ' ' ::
        (wrapping.wrapper.toList ++ '(' :: (front ++ query.client.toList ++ before)), ?_⟩)
      rw [hbefore]
      simp
    · rw [List.append_assoc]
      refine Eligibility.exportsGet_replace (q := ')') (y := b) (by decide) ?_
      simpa using hexports
  · obtain ⟨before, rfl⟩ := Text.mem_afterLineFeeds_iff.mp hline
    refine ⟨line, Text.mem_lineStarts_iff.mpr (.inr ⟨a ++ ("await".toList ++ ' ' ::
      (wrapping.wrapper.toList ++ '(' :: (front ++ (query.client.toList ++ calls) ++ arguments)))
      ++ before, ?_⟩), hexports⟩
    simp

end CachedRoutes.Query
