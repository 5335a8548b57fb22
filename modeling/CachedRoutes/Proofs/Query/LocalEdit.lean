import CachedRoutes.Proofs.Query.Match

/-!
# Wrapping is a local edit

Wrapping takes one awaited expression out of a text and puts a call around it. Here is what the new
text looks like, and what of it can depend on the policy.

* **Indentation.** `indentAfter_indents`: the new lines start with the spaces and tabs of the line that
  holds `await`, also if the statement begins on an earlier line.
* **Lines.** `wrappedExpression_eq_wrapperCall`: the expression is replaced by five lines.
* **One decision for all policies.** `wrap_local_edit`: a text is left alone under all policies for one
  reason, or it is cut once and for all, and a policy fills in the key base, the seconds and the tag.
-/

namespace CachedRoutes.Query

/-! ## Indentation -/

/-- The text falls apart on some line, and `indent` is the indentation of that line. The line itself
goes on in `right`, so its first characters may stand there. -/
structure Indents (indent left right : List Char) : Prop where
  exists_line : ∃ above line, left = above ++ line ∧ (above = [] ∨ ∃ front, above = front ++ ['\n']) ∧
    '\n' ∉ line ∧ indent = (line ++ right).takeWhile Text.isIndent

/-- A text ends with its last line, which a line feed or nothing stands in front of. -/
lemma exists_last_line (left : List Char) :
    ∃ above, left = above ++ (left.reverse.takeWhile (· != '\n')).reverse ∧
      (above = [] ∨ ∃ front, above = front ++ ['\n']) := by
  have hcut := List.takeWhile_append_dropWhile (p := (· != '\n')) (l := left.reverse)
  refine ⟨(left.reverse.dropWhile (· != '\n')).reverse, ?_, ?_⟩
  · rw [← List.reverse_append, hcut, List.reverse_reverse]
  · cases hrest : left.reverse.dropWhile (· != '\n') with
    | nil => exact .inl rfl
    | cons c rest =>
      have hhead := List.head?_dropWhile_not (· != '\n') left.reverse
      rw [hrest] at hhead
      obtain rfl : c = '\n' := by simpa using hhead
      exact .inr ⟨rest.reverse, List.reverse_cons⟩

/-- **The indentation in front of a place is that of its line,** if no indentation goes on there. -/
lemma indentAfter_indents {left right : List Char}
    (hright : ∀ c ∈ right.head?, Text.isIndent c = false) :
    Indents (indentAfter left) left right := by
  obtain ⟨above, hleft, habove⟩ := exists_last_line left
  refine ⟨above, _, hleft, habove, ?_, ?_⟩
  · intro hmem
    have := List.mem_takeWhile_imp (List.mem_reverse.mp hmem)
    simp at this
  · unfold indentAfter
    rw [takeWhile_append_of_head hright]

/-- The indent ends in front of `await`. -/
lemma isIndent_of_await {c : Char} {rest : List Char} (hc : c ∈ ("await".toList ++ rest).head?) :
    Text.isIndent c = false := by
  have hawait : "await".toList = 'a' :: "wait".toList := rfl
  rw [hawait] at hc
  obtain rfl : 'a' = c := by simpa using hc
  decide

/-! ## Lines -/

/-- The call that takes the place of an awaited expression: five lines, of which all but the first are
indented. The key, the seconds and the tag are what the cache is told. -/
def wrapperCall (wrapper indent expr key : List Char) (seconds : Nat) (tag : List Char) : List Char :=
  ('\n' :: indent).intercalate
    ["await ".toList ++ wrapper ++ "(".toList,
      "  async () => await ".toList ++ expr ++ ",".toList,
      "  [".toList ++ key ++ "],".toList,
      "  \x7b revalidate: ".toList ++ (toString seconds).toList ++ ", tags: [".toList ++ tag
        ++ "] \x7d".toList,
      ")()".toList]

/-- The wrapped expression is a call on five lines, with the key, the seconds and the tag in it. -/
lemma wrappedExpression_eq_wrapperCall (wrapping : Settings.Wrapping) (policy : Policy)
    (parameters : List (List Char)) (indent expr : List Char) :
    wrappedExpression wrapping policy parameters indent expr
      = wrapperCall wrapping.wrapper.toList indent expr
          (keyLiteral wrapping.params.toList policy.keyBase.toList parameters) policy.revalidate
          (policy.tag.expression wrapping.registry).toList := by
  have hopen : "(\n".toList = "(".toList ++ ['\n'] := rfl
  have hcomma : ",\n".toList = ",".toList ++ ['\n'] := rfl
  have hbracket : "],\n".toList = "],".toList ++ ['\n'] := rfl
  have hbrace : "] \x7d\n".toList = "] \x7d".toList ++ ['\n'] := rfl
  unfold wrappedExpression wrapperCall
  rw [hopen, hcomma, hbracket, hbrace]
  simp only [List.intercalate, List.intersperse, List.flatten_cons, List.flatten_nil,
    List.append_assoc, List.cons_append, List.nil_append, List.append_nil]

/-! ## One decision for all policies -/

/-- **Wrapping is a local edit, and its decision does not depend on the policy.** For a text there are
three cases. It calls the wrapper already, under all policies. Or it is left alone for one reason,
under all policies. Or it has one query, and falls apart into what stands in front of `await`, blanks,
the awaited expression and what follows. The expression starts with the query's client and ends with a
parenthesis. Under each policy, the new text has the same two outer parts, with the expression inside
of a call of the wrapper between them. The call is indented like the line of `await`, and takes the key
base, the seconds and the tag from the policy. -/
theorem wrap_local_edit (wrapping : Settings.Wrapping) (route : Route) (text : List Char) :
    (∀ policy, wrap wrapping route policy text = .alreadyWrapped) ∨
    (∃ why, ∀ policy, wrap wrapping route policy text = .abstained why) ∨
    ∃ query front gap expr rest indent,
      text = front ++ "await".toList ++ gap ++ expr ++ rest ∧
      gap ≠ [] ∧ (∀ c ∈ gap, Text.isBlank c = true) ∧
      query.client ∈ wrapping.clients ∧ query.client.toList <+: expr ∧ [')'] <:+ expr ∧
      Indents indent front ("await".toList ++ gap ++ expr ++ rest) ∧
      ∀ policy, wrap wrapping route policy text = .wrapped query
        (front
          ++ wrapperCall wrapping.wrapper.toList indent expr
              (keyLiteral wrapping.params.toList policy.keyBase.toList route.parameters)
              policy.revalidate (policy.tag.expression wrapping.registry).toList
          ++ rest) := by
  unfold wrap
  by_cases hcalls : Code.callsFunction wrapping.wrapper.toList text = true
  · exact .inl fun _ => if_pos hcalls
  simp only [if_neg hcalls]
  right
  rcases hfound : findAll wrapping text with _ | ⟨query, _ | ⟨second, others⟩⟩
  · exact .inl ⟨_, fun _ => rfl⟩
  · cases hobjection : objection? wrapping route text query with
    | some why => exact .inl ⟨why, fun _ => by simp only [hobjection]⟩
    | none =>
      right
      have hmem : query ∈ findAll wrapping text := by simp [hfound]
      obtain ⟨front, gap, calls, rest, hstands⟩ := mem_findAll hmem
      obtain ⟨⟨inner, hinner⟩, -⟩ := hstands.calls_ends
      refine ⟨query, front, gap, query.client.toList ++ calls, rest, indentAfter front, ?_,
        hstands.gap_ne_nil, hstands.gap_blank, hstands.client_mem, List.prefix_append _ _, ?_, ?_, ?_⟩
      · rw [hstands.text_eq]
        simp only [List.append_assoc]
      · rw [hinner, ← List.append_assoc]
        exact List.suffix_append _ _
      · apply indentAfter_indents
        simp only [List.append_assoc]
        exact fun c hc => isIndent_of_await hc
      · intro policy
        simp only [hobjection]
        rw [hstands.wrapText_eq, wrappedExpression_eq_wrapperCall]
  · exact .inl ⟨_, fun _ => rfl⟩

/-- An indented query is wrapped, so it is the third of the three cases that holds. -/
theorem wrap_local_edit_indented :
    let route : Route := ⟨"app/api/users/route.ts"⟩
    let text := "\tconst \x7b data \x7d = await query.limit(1)\n".toList
    let wrapped := "\tconst \x7b data \x7d = await unstable_cache(\n".toList
      ++ "\t  async () => await query.limit(1),\n\t  ['users'],\n".toList
      ++ "\t  \x7b revalidate: 300, tags: [CACHE_TAGS.users] \x7d\n\t)()\n".toList
    wrap {} route ⟨.users, 300, "users"⟩ text
        = .wrapped ⟨18, 24, 38, "query", .orderedList⟩ wrapped ∧
      ∃ query front gap expr rest indent,
        text = front ++ "await".toList ++ gap ++ expr ++ rest ∧
        query.client.toList <+: expr ∧
        Indents indent front ("await".toList ++ gap ++ expr ++ rest) ∧
        ∀ policy, wrap {} route policy text = .wrapped query
          (front
            ++ wrapperCall "unstable_cache".toList indent expr
                (keyLiteral "params".toList policy.keyBase.toList route.parameters)
                policy.revalidate (policy.tag.expression "CACHE_TAGS").toList
            ++ rest) := by
  intro route text wrapped
  have hwrapped : wrap {} route ⟨.users, 300, "users"⟩ text
      = .wrapped ⟨18, 24, 38, "query", .orderedList⟩ wrapped := by decide +kernel
  refine ⟨hwrapped, ?_⟩
  rcases wrap_local_edit {} route text with halready | ⟨why, habstained⟩ | hlocal
  · cases hwrapped.symm.trans (halready _)
  · cases hwrapped.symm.trans (habstained _)
  · obtain ⟨query, front, gap, expr, rest, indent, htext, -, -, -, hclient, -, hindents, hnew⟩ := hlocal
    exact ⟨query, front, gap, expr, rest, indent, htext, hclient, hindents, hnew⟩

end CachedRoutes.Query
