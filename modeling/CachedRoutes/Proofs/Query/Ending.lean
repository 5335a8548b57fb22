import CachedRoutes.Proofs.Code.StatementEnd
import CachedRoutes.Proofs.Query.Match

/-!
# Where the statement of a query ends

A query is wrapped only if its statement is over behind the chain of calls: an expression that goes on
would have its first part cached alone. Where a statement is over is said in `Code.EndsThere`, and what
the test lets pass in `Code.endsStatement_iff`.

* **Heads** (`judge_continues`): one is passed over for going on only if the test fails.
* **Queries** (`statement_ends_iff`). `continuation_behind_comment` is a query that goes on.
-/

namespace CachedRoutes.Query

/-! ## Heads -/

/-- A head is passed over for going on only if the test fails behind its chain. -/
lemma judge_continues {text : List Char} {inert : List Code.Span} {head : Head}
    {methods : List String} (h : judge text inert head = .continues methods) :
    ∃ rest, Code.chain? (text.drop head.stop) = some (methods, rest) ∧
      Code.endsStatement rest = false := by
  unfold judge at h
  split at h
  · cases h
  · split at h
    · cases h
    · split at h
      · cases h
      · rename_i names rest hchain
        dsimp only at h
        split at h
        · cases h
        · split at h
          · cases h
          · rename_i hgoesOn
            obtain rfl := Verdict.continues.inj h
            exact ⟨rest, hchain, by simpa using hgoesOn⟩

/-! ## Queries -/

/-- **When the statement of a query is over behind its chain.** Every query of a text ends there, unless
a block comment is closed on the line and the statement goes on behind the comment. And of the heads
with a chain of calls that come to the test, those are accepted whose statement ends there or that have
a block comment ahead; a head that is passed over because it goes on has neither. -/
theorem statement_ends_iff (wrapping : Settings.Wrapping) (text : List Char) :
    (∀ query ∈ findAll wrapping text,
      (Code.EndsThere (text.drop query.stop) ↔
        ∀ after, Code.CommentAhead (text.drop query.stop) after → Code.EndsThere after)) ∧
    ∀ head verdict, (head, verdict) ∈ candidates wrapping text →
      ∀ methods rest, Code.chain? (text.drop head.stop) = some (methods, rest) →
        ((∃ query, verdict = .accepted query) →
          Code.EndsThere rest ∨ ∃ after, Code.CommentAhead rest after) ∧
        (verdict = .continues methods →
          ¬ Code.EndsThere rest ∧ ∀ after, ¬ Code.CommentAhead rest after) := by
  constructor
  · intro query hquery
    obtain ⟨a, gap, calls, b, hstands⟩ := mem_findAll hquery
    have hdrop : text.drop query.stop = b := by
      rw [hstands.stop_eq, hstands.text_eq, List.drop_left]
    rw [hdrop]
    constructor
    · intro hends after hafter
      exact hafter.endsThere_iff.mp hends
    · intro hafter
      rcases Code.endsStatement_iff.mp hstands.ends with hends | ⟨after, hahead⟩
      · exact hends
      · exact hahead.endsThere_iff.mpr (hafter after hahead)
  · intro head verdict hcandidate methods rest hchain
    obtain ⟨other, -, hjudged⟩ := List.mem_map.mp hcandidate
    obtain ⟨rfl, rfl⟩ := Prod.mk.inj hjudged
    constructor
    · rintro ⟨query, haccepted⟩
      obtain ⟨names, tail, hchain', hends, -⟩ := judge_accepted haccepted
      obtain ⟨-, rfl⟩ := Prod.mk.inj (Option.some.inj (hchain.symm.trans hchain'))
      exact Code.endsStatement_iff.mp hends
    · intro hcontinues
      obtain ⟨tail, hchain', hgoesOn⟩ := judge_continues hcontinues
      obtain ⟨-, rfl⟩ := Prod.mk.inj (Option.some.inj (hchain.symm.trans hchain'))
      rw [← Bool.not_eq_true, Code.endsStatement_iff, not_or, not_exists] at hgoesOn
      exact hgoesOn

/-- A query with a comment and a semicolon on its line. -/
theorem statement_ends_iff_rows :
    let text := "const \x7b data \x7d = await supabase.from('a').select() /* all */ ;\n".toList
    let query : Query := ⟨17, 23, 50, "supabase", .select⟩
    query ∈ findAll {} text ∧
      (Code.EndsThere (text.drop query.stop) ↔
        ∀ after, Code.CommentAhead (text.drop query.stop) after → Code.EndsThere after) := by
  intro text query
  have hquery : query ∈ findAll {} text := by
    rw [show text = _ from String.toList_ofList]
    decide +kernel
  exact ⟨hquery, (statement_ends_iff {} text).1 query hquery⟩

/-- **A query that goes on behind a comment.** Without the comment the statement is passed over; with
it, the part in front of `||` is a query, and its statement does not end there. -/
theorem continuation_behind_comment :
    let statement := "const \x7b data \x7d = await supabase.from('users').select('*')".toList
    let fallback := "|| fallback\n".toList
    let comment := "/* all */".toList
    let query : Query := ⟨17, 23, 57, "supabase", .select⟩
    findAll {} (statement ++ ' ' :: fallback) = [] ∧
      findAll {} (statement ++ (' ' :: comment) ++ ' ' :: fallback) = [query] ∧
      ¬ Code.EndsThere ((statement ++ (' ' :: comment) ++ ' ' :: fallback).drop query.stop) := by
  intro statement fallback comment query
  refine ⟨by decide +kernel, by decide +kernel, ?_⟩
  have hdrop : (statement ++ (' ' :: comment) ++ ' ' :: fallback).drop query.stop
      = ' ' :: (comment ++ ' ' :: fallback) := by decide +kernel
  have hline : " all ".toList.all (fun c => !Code.isBreak c) = true := by decide
  have hcomment : Code.InlineComment comment := by
    refine @Code.InlineComment.mk " all ".toList (by decide) ?_
    intro c hc
    simpa using List.all_eq_true.mp hline c hc
  rw [hdrop, Code.endsThere_indent rfl, Code.endsThere_comment hcomment, Code.endsThere_indent rfl]
  intro hends
  exact absurd (Code.endsStatement_iff.mpr (.inl hends)) (by decide)

end CachedRoutes.Query
