import CachedRoutes.Proofs.Query.Keyed
import CachedRoutes.Proofs.Query.Seam

/-!
# Queries that were built earlier

A client such as `query` holds a query already: earlier statements have built it, possibly from
request input. Here is what the decision about such a query depends on.

* **Assignments.** `Assignment.StandsIn`: a statement that gives a client its query, and
  `BuiltFromInput`: one with request input in it, in front of the query of the file.
* **Decisions.** `wrap_ne_wrapped_iff`: all that keeps a single query from being wrapped.
* **Earlier statements.** `prebuilt_not_wrapped_iff`: a query that was built from request input is
  kept from the cache for the same reasons as any other, and none of them is how it was built.
  `prebuilt_input_cached` is a query that is cached for all requests although one of its filters is
  request input.
-/

namespace CachedRoutes.Query

/-! ## Assignments -/

/-- The parts of a text with an assignment `client = source.method(…)…` in it. -/
structure Assignment where
  /-- The text in front of the statement. -/
  lead : List Char
  /-- The word that declares a variable with the blanks behind it, or nothing. -/
  declarator : List Char
  /-- The blanks in front of `=`. -/
  left : List Char
  /-- The blanks behind `=`. -/
  right : List Char
  /-- The name that the calls start from. -/
  source : List Char
  /-- The calls. -/
  calls : List Char
  /-- The text behind the statement. -/
  rest : List Char

namespace Assignment

/-- The text up to the end of the calls. -/
def front (assignment : Assignment) (client : String) : List Char :=
  assignment.lead ++ assignment.declarator ++ client.toList ++ assignment.left ++ ['=']
    ++ assignment.right ++ assignment.source ++ assignment.calls

/-- The text has the assignment to the client in it. It may stand on a line of its own, or behind
the condition of an `if`. -/
structure StandsIn (assignment : Assignment) (client : String) (text : List Char) : Prop where
  text_eq : text = assignment.front client ++ assignment.rest
  /-- It starts there: no name goes on, and no member of something is assigned to. -/
  starts : ∀ c ∈ assignment.lead.getLast?, Code.isNameChar c = false ∧ c ≠ '.'
  /-- It is no comment and no quoted text. -/
  in_code : ∀ span ∈ Code.spans text, span.covers assignment.lead.length = false
  declares : assignment.declarator = [] ∨ ∃ word ∈ ["let", "const", "var"],
    ∃ gap, assignment.declarator = word.toList ++ gap ∧ gap ≠ [] ∧ ∀ c ∈ gap, Text.isBlank c = true
  left_blank : ∀ c ∈ assignment.left, Text.isBlank c = true
  right_blank : ∀ c ∈ assignment.right, Text.isBlank c = true
  source_name : Code.IsName assignment.source
  chain : ∃ methods,
    Code.chain? (assignment.calls ++ assignment.rest) = some (methods, assignment.rest)
  ends : Code.endsStatement assignment.rest = true

end Assignment

/-- The client of the query holds a query already, and an earlier statement of the text has built it
with request input in its arguments. -/
structure BuiltFromInput (known : Code.KeyedInput) (text : List Char) (query : Query)
    (assignment : Assignment) (input : List Char) : Prop where
  prebuilt : query.client ∈ prebuiltClients
  stands : assignment.StandsIn query.client text
  earlier : (assignment.front query.client).length ≤ query.awaitAt
  input_eq : Code.requestInput? known .plain assignment.calls = some input

/-- What is searched for request input lies behind the statement that built the query. -/
lemma BuiltFromInput.arguments_infix {known : Code.KeyedInput} {wrapping : Settings.Wrapping}
    {text input : List Char} {query : Query} {assignment : Assignment}
    (h : BuiltFromInput known text query assignment input) (hquery : query ∈ findAll wrapping text) :
    arguments text query <:+: assignment.rest := by
  obtain ⟨a, gap, calls, b, hstands⟩ := mem_findAll hquery
  have ha : a <+: text :=
    ⟨"await".toList ++ gap ++ query.client.toList ++ calls ++ b, by simp [hstands.text_eq]⟩
  have hfront : assignment.front query.client <+: text :=
    ⟨assignment.rest, h.stands.text_eq.symm⟩
  obtain ⟨between, rfl⟩ := List.prefix_of_prefix_length_le hfront ha
    (by rw [← hstands.awaitAt_eq]; exact h.earlier)
  have hrest : assignment.rest
      = between ++ "await".toList ++ gap ++ query.client.toList ++ calls ++ b := by
    refine List.append_cancel_left (h.stands.text_eq.symm.trans ?_)
    rw [hstands.text_eq]
    simp only [List.append_assoc]
  rw [hstands.arguments_eq, hrest]
  exact ⟨between ++ "await".toList ++ gap ++ query.client.toList, b, rfl⟩

/-! ## Decisions -/

/-- **What keeps a single query from the cache**: a call of the caching function, a route parameter
that is never read, or request input in its own arguments. -/
lemma wrap_ne_wrapped_iff {wrapping : Settings.Wrapping} {route : Route} {policy : Policy}
    {text : List Char} {query : Query} (h : findAll wrapping text = [query]) :
    (∀ found new, wrap wrapping route policy text ≠ .wrapped found new) ↔
      Code.callsFunction wrapping.wrapper.toList text = true ∨
      (∃ parameter ∈ route.parameters, ¬ (wrapping.params.toList ++ '.' :: parameter) <:+: text) ∨
      ∃ own, Code.requestInput? ⟨wrapping.params.toList, route.parameters⟩ .plain
        (arguments text query) = some own := by
  have hunread : (∃ parameter ∈ route.parameters,
      ¬ (wrapping.params.toList ++ '.' :: parameter) <:+: text) ↔
      ∃ parameter, unreadParameter? wrapping.params.toList text route.parameters
        = some parameter := by
    rw [← Option.isSome_iff_exists, unreadParameter?, List.find?_isSome]
    simp only [Bool.not_eq_true', ← Bool.not_eq_true, Text.contains_iff]
  rw [hunread]
  unfold wrap objection?
  rw [h]
  by_cases hcalls : Code.callsFunction wrapping.wrapper.toList text = true
  · simp [hcalls]
  rw [if_neg hcalls]
  dsimp only
  cases unreadParameter? wrapping.params.toList text route.parameters with
  | some parameter => simp [hcalls]
  | none =>
    cases Code.requestInput? ⟨wrapping.params.toList, route.parameters⟩ .plain
        (arguments text query) with
    | some own => simp [hcalls]
    | none => simp [hcalls]

/-! ## Earlier statements -/

/-- The queries behind a seam, and their arguments, are the same for any text in front of it. -/
lemma Precedes.single_append {wrapping : Settings.Wrapping} {earlier later other : List Char}
    {query : Query} (hearlier : Precedes wrapping earlier later)
    (hother : Precedes wrapping other later) (h : findAll wrapping (earlier ++ later) = [query]) :
    ∃ found, findAll wrapping (other ++ later) = [found] ∧
      arguments (other ++ later) found = arguments (earlier ++ later) query := by
  rw [hearlier.findAll_append, List.map_eq_singleton_iff] at h
  obtain ⟨own, hown, rfl⟩ := h
  refine ⟨own.shift other.length, ?_, ?_⟩
  · rw [hother.findAll_append, hown, List.map_singleton]
  · rw [arguments_append, arguments_append]

/-- **How a query was built has no say.** Let the single query of a text stand on a client that an
earlier statement has built from request input. It is kept from the cache exactly if the caching
function is called already, a route parameter is never read, or there is request input in the query's
own arguments. These lie behind the earlier statement; and if the text in front of the query is
replaced, the statement with it, the query is found again and is searched in the same arguments. -/
theorem prebuilt_not_wrapped_iff {wrapping : Settings.Wrapping} {route : Route} {policy : Policy}
    {text input : List Char} {query : Query} {assignment : Assignment}
    (hsingle : findAll wrapping text = [query])
    (hbuilt : BuiltFromInput ⟨wrapping.params.toList, route.parameters⟩ text query assignment input) :
    ((∀ found new, wrap wrapping route policy text ≠ .wrapped found new) ↔
      Code.callsFunction wrapping.wrapper.toList text = true ∨
      (∃ parameter ∈ route.parameters, ¬ (wrapping.params.toList ++ '.' :: parameter) <:+: text) ∨
      ∃ own, Code.requestInput? ⟨wrapping.params.toList, route.parameters⟩ .plain
        (arguments text query) = some own) ∧
    arguments text query <:+: assignment.rest ∧
    ∀ earlier later other, text = earlier ++ later →
      Precedes wrapping earlier later → Precedes wrapping other later →
      ∃ found, findAll wrapping (other ++ later) = [found] ∧
        arguments (other ++ later) found = arguments text query := by
  refine ⟨wrap_ne_wrapped_iff hsingle, ?_, ?_⟩
  · exact hbuilt.arguments_infix (by rw [hsingle]; exact List.mem_singleton.mpr rfl)
  · rintro earlier later other rfl hearlier hother
    exact hearlier.single_append hother hsingle

/-! ## A query for one owner -/

/-- A statement that builds a query for one owner. -/
def ownerStatement : List Char :=
  "let query = supabase.from('users').eq('owner', userId)\n".toList

/-- The assignment in it, with a statement behind it that fetches the data. -/
def ownerAssignment (argument : List Char) : Assignment where
  lead := []
  declarator := "let ".toList
  left := [' ']
  right := [' ']
  source := "supabase".toList
  calls := ".from('users').eq('owner', userId)".toList
  rest := '\n' :: ordered argument

/-- The assignment stands in the text, with either order behind it. -/
lemma ownerAssignment_standsIn {argument : List Char}
    (h : argument = "'name'".toList ∨ argument = "by".toList) :
    (ownerAssignment argument).StandsIn "query" (ownerStatement ++ ordered argument) where
  text_eq := by rcases h with rfl | rfl <;> decide
  starts := by simp [ownerAssignment]
  in_code := by rcases h with rfl | rfl <;> decide +kernel
  declares := .inr ⟨"let", by decide, [' '], rfl, by simp, List.all_eq_true.mp (by decide)⟩
  left_blank := List.all_eq_true.mp (show [' '].all Text.isBlank = true by decide)
  right_blank := List.all_eq_true.mp (show [' '].all Text.isBlank = true by decide)
  source_name := Code.isName_of_isIdentifier (show Settings.isIdentifier "supabase" = true by decide)
  chain := ⟨["from", "eq"], by rcases h with rfl | rfl <;> decide +kernel⟩
  ends := by rcases h with rfl | rfl <;> decide

/-- A query for one owner, in an order that is request input too, is not wrapped; and the same
arguments are searched where the query was built without request input. -/
theorem prebuilt_not_wrapped_iff_owner :
    let text := ownerStatement ++ ordered "by".toList
    let query : Query := ⟨72, 78, 93, "query", .orderedList⟩
    findAll {} text = [query] ∧
      BuiltFromInput ⟨"params".toList, Route.parameters ⟨"app/api/users/route.ts"⟩⟩ text query
        (ownerAssignment "by".toList) "userId".toList ∧
      (∀ found new, wrap {} ⟨"app/api/users/route.ts"⟩ ⟨.users, 300, "users"⟩ text
        ≠ .wrapped found new) ∧
      arguments text query <:+: (ownerAssignment "by".toList).rest ∧
      ∃ found, findAll {} ("let query = supabase.from('users')\n".toList
          ++ ordered "by".toList) = [found] ∧
        arguments ("let query = supabase.from('users')\n".toList ++ ordered "by".toList) found
          = arguments text query := by
  intro text query
  have hsingle : findAll {} text = [query] := by decide +kernel
  have hbuilt : BuiltFromInput ⟨"params".toList, Route.parameters ⟨"app/api/users/route.ts"⟩⟩ text
      query (ownerAssignment "by".toList) "userId".toList :=
    ⟨by decide, ownerAssignment_standsIn (.inr rfl), by decide, by decide +kernel⟩
  obtain ⟨hiff, hinfix, hother⟩ :=
    @prebuilt_not_wrapped_iff {} _ ⟨.users, 300, "users"⟩ _ _ _ _ hsingle hbuilt
  refine ⟨hsingle, hbuilt, ?_, hinfix, ?_⟩
  · exact hiff.mpr (.inr (.inr ⟨"by".toList, by decide +kernel⟩))
  · exact hother ownerStatement _ _ rfl
      ⟨by decide +kernel, by decide +kernel, by decide +kernel⟩
      ⟨by decide +kernel, by decide +kernel, by decide +kernel⟩

/-- **Request input in the cache.** A query for one owner, in a fixed order, is wrapped under a key
that all owners share. -/
theorem prebuilt_input_cached :
    let text := ownerStatement ++ ordered "'name'".toList
    let query : Query := ⟨72, 78, 97, "query", .orderedList⟩
    findAll {} text = [query] ∧
      BuiltFromInput ⟨"params".toList, Route.parameters ⟨"app/api/users/route.ts"⟩⟩ text query
        (ownerAssignment "'name'".toList) "userId".toList ∧
      wrap {} ⟨"app/api/users/route.ts"⟩ ⟨.users, 300, "users"⟩ text
        = .wrapped query (ownerStatement ++ ("const \x7b data \x7d = await unstable_cache(\n" ++
          "  async () => await query.order('name'),\n  ['users'],\n" ++
          "  \x7b revalidate: 300, tags: [CACHE_TAGS.users] \x7d\n)()\n").toList) := by
  intro text query
  refine ⟨by decide +kernel, ?_, by decide +kernel⟩
  exact ⟨by decide, ownerAssignment_standsIn (.inl rfl), by decide, by decide +kernel⟩

end CachedRoutes.Query
