import CachedRoutes.Query.Wrap
import CachedRoutes.Proofs.Code.Trivia
import CachedRoutes.Proofs.Text.Lines

/-!
# Where queries stand

A query is kept as positions in its text. Here is what stands at these positions.

* **Heads.** `mem_heads`: a head of a text is `await`, blanks and a client in it.
* **Queries.** `mem_findAll`: behind the client of a query there is a chain of calls of the query's
  shape, and the statement ends behind it (`StandsIn`).
* **Parts.** `StandsIn.arguments_eq` and `StandsIn.wrapText_eq`: the calls are what is searched for
  request input, and the awaited expression is what wrapping replaces.
-/

namespace CachedRoutes.Query

/-! ## Heads -/

/-- A declarator is `const` or `let`. -/
lemma afterDeclarator?_eq_some {text rest : List Char} (h : afterDeclarator? text = some rest) :
    ∃ keyword, text = keyword ++ rest ∧ (keyword = "const".toList ∨ keyword = "let".toList) := by
  unfold afterDeclarator? at h
  cases hconst : Text.after? "const".toList text with
  | some declared =>
    rw [hconst] at h
    obtain rfl := Option.some.inj h
    exact ⟨_, Text.after?_eq_some_iff.mp hconst, .inl rfl⟩
  | none =>
    rw [hconst] at h
    exact ⟨_, Text.after?_eq_some_iff.mp h, .inr rfl⟩

/-- What stands between the first braces has no braces in it. -/
lemma braced?_eq_some {text inner after : List Char} (h : braced? text = some (inner, after)) :
    ∃ gap, text = gap ++ '\x7b' :: (inner ++ '\x7d' :: after) ∧ (∀ c ∈ gap, Text.isBlank c = true) ∧
      ∀ c ∈ inner, c ≠ '\x7b' ∧ c ≠ '\x7d' := by
  unfold braced? at h
  split at h
  · rename_i rest htrim
    dsimp only at h
    split at h
    · rename_i tail htail
      obtain ⟨rfl, rfl⟩ := Prod.mk.inj (Option.some.inj h)
      obtain ⟨gap, hgap, hblank, -⟩ := Text.trimStart_gap text
      refine ⟨gap, ?_, hblank, ?_⟩
      · rw [hgap, htrim, ← htail]
        congr 2
        exact (List.prefix_iff_eq_append.mp (List.takeWhile_prefix _)).symm
      · intro c hc
        simpa using List.mem_takeWhile_imp hc
    · simp at h
  · simp at h

/-- An equals sign may have blanks around it. -/
lemma afterEquals?_eq_some {text rest : List Char} (h : afterEquals? text = some rest) :
    ∃ gap gap', text = gap ++ '=' :: (gap' ++ rest) ∧ (∀ c ∈ gap, Text.isBlank c = true) ∧
      ∀ c ∈ gap', Text.isBlank c = true := by
  unfold afterEquals? at h
  split at h
  · rename_i tail htrim
    obtain rfl := Option.some.inj h
    obtain ⟨gap, hgap, hblank, -⟩ := Text.trimStart_gap text
    obtain ⟨gap', hgap', hblank', -⟩ := Text.trimStart_gap tail
    refine ⟨gap, gap', ?_, hblank, hblank'⟩
    rw [← hgap', ← htrim, ← hgap]
  · simp at h

/-- The client of a head: at least one blank, one of the clients, and a word boundary. -/
lemma client?_eq_some {clients : List (List Char)} {text client : List Char} {gap : Nat}
    (h : client? clients text = some (gap, client)) :
    ∃ blanks tail, text = blanks ++ client ++ tail ∧ blanks.length = gap ∧ blanks ≠ [] ∧
      (∀ c ∈ blanks, Text.isBlank c = true) ∧ client ∈ clients ∧
      Text.isBoundary (blanks ++ client).getLast? tail.head? = true := by
  unfold client? at h
  obtain ⟨n, hn, hat⟩ := List.exists_of_findSome?_eq_some h
  rw [List.mem_reverse, List.mem_range] at hn
  obtain ⟨candidate, hmem, hif⟩ := List.exists_of_findSome?_eq_some hat
  split at hif
  · rename_i hcond
    obtain ⟨rfl, rfl⟩ := Prod.mk.inj (Option.some.inj hif)
    rw [Bool.and_eq_true, List.isPrefixOf_iff_prefix] at hcond
    obtain ⟨⟨tail, htail⟩, hboundary⟩ := hcond
    have hlength : (text.take (n + 1)).length = n + 1 := by
      have hblanks := (List.takeWhile_prefix (l := text) Text.isBlank).length_le
      rw [List.length_take]
      omega
    have htake : text.take (n + 1) <+: text.takeWhile Text.isBlank :=
      List.prefix_of_prefix_length_le (List.take_prefix _ _) (List.takeWhile_prefix _) (by omega)
    have hdrop : text.drop (n + 1 + candidate.length) = tail := by
      rw [← List.drop_drop, ← htail, List.drop_left]
    refine ⟨text.take (n + 1), tail, ?_, hlength, ?_, ?_, hmem, hdrop ▸ hboundary⟩
    · rw [List.append_assoc, htail, List.take_append_drop]
    · intro hnil
      rw [hnil] at hlength
      simp at hlength
    · intro c hc
      exact List.mem_takeWhile_imp (htake.subset hc)
  · simp at hif

/-- What a head is made of: in front of its client there is `await` with blanks, at the positions
that the head holds. -/
lemma head?_eq_some {clients : List (List Char)} {before : Option Char} {start : Nat}
    {text : List Char} {head : Head} (h : head? clients before start text = some head) :
    ∃ lead gap tail, text = lead ++ "await".toList ++ gap ++ head.client ++ tail ∧
      head.start = start ∧ head.awaitAt = start + lead.length ∧
      head.clientAt = start + (lead ++ "await".toList ++ gap).length ∧
      gap ≠ [] ∧ (∀ c ∈ gap, Text.isBlank c = true) ∧ head.client ∈ clients ∧
      Text.isBoundary (gap ++ head.client).getLast? tail.head? = true := by
  unfold head? at h
  obtain ⟨-, -, h⟩ := Option.bind_eq_some_iff.mp h
  obtain ⟨declared, hdeclared, h⟩ := Option.bind_eq_some_iff.mp h
  obtain ⟨⟨bindings, assigned⟩, hbraced, h⟩ := Option.bind_eq_some_iff.mp h
  obtain ⟨awaited, hawaited, h⟩ := Option.bind_eq_some_iff.mp h
  obtain ⟨fetched, hfetched, h⟩ := Option.bind_eq_some_iff.mp h
  obtain ⟨⟨gap, client⟩, hclient, h⟩ := Option.bind_eq_some_iff.mp h
  obtain rfl := Option.some.inj h
  obtain ⟨keyword, rfl, -⟩ := afterDeclarator?_eq_some hdeclared
  obtain ⟨gap₀, rfl, -⟩ := braced?_eq_some hbraced
  obtain ⟨gap₁, gap₂, rfl, -⟩ := afterEquals?_eq_some hawaited
  obtain rfl := Text.after?_eq_some_iff.mp hfetched
  obtain ⟨blanks, tail, rfl, rfl, hne, hblank, hmem, hboundary⟩ := client?_eq_some hclient
  refine ⟨keyword ++ (gap₀ ++ '\x7b' :: (bindings ++ '\x7d' :: (gap₁ ++ '=' :: gap₂))), blanks, tail,
    by simp, rfl, ?_, ?_, hne, hblank, hmem, hboundary⟩
  · simp only [List.length_append, List.length_cons]
    omega
  · simp only [List.length_append, List.length_cons]
    omega

/-- A head starts with a declarator and an opening brace. -/
lemma head?_declares {clients : List (List Char)} {before : Option Char} {start : Nat}
    {text : List Char} {head : Head} (h : head? clients before start text = some head) :
    ∃ keyword gap tail, text = keyword ++ (gap ++ '\x7b' :: tail) ∧
      (keyword = "const".toList ∨ keyword = "let".toList) ∧ ∀ c ∈ gap, Text.isBlank c = true := by
  unfold head? at h
  obtain ⟨-, -, h⟩ := Option.bind_eq_some_iff.mp h
  obtain ⟨declared, hdeclared, h⟩ := Option.bind_eq_some_iff.mp h
  obtain ⟨⟨bindings, assigned⟩, hbraced, -⟩ := Option.bind_eq_some_iff.mp h
  obtain ⟨keyword, rfl, hkeyword⟩ := afterDeclarator?_eq_some hdeclared
  obtain ⟨gap, rfl, hgap, -⟩ := braced?_eq_some hbraced
  exact ⟨keyword, gap, _, rfl, hkeyword, hgap⟩

/-- A head found from a position on is the head of some rest of the text. -/
lemma mem_headsFrom {clients : List (List Char)} {before : Option Char} {start : Nat}
    {text : List Char} {head : Head} (h : head ∈ headsFrom clients before start text) :
    ∃ skipped rest before', text = skipped ++ rest ∧
      head? clients before' (start + skipped.length) rest = some head := by
  fun_induction headsFrom clients before start text with
  | case1 => simp at h
  | case2 before start c rest found hfound width ih =>
    rcases List.mem_cons.mp h with rfl | h
    · exact ⟨[], c :: rest, before, rfl, by simpa using hfound⟩
    · obtain ⟨skipped, tail, before', hrest, hhead⟩ := ih h
      -- the search went on behind the client, which is still inside of the text
      have hwidth : width ≤ rest.length := by
        obtain ⟨lead, gap, after, htext, -, -, hclientAt, -⟩ := head?_eq_some hfound
        have hlength := congrArg List.length htext
        have hstop : width = found.clientAt + found.client.length - start - 1 := rfl
        simp only [List.length_append, List.length_cons] at hlength hclientAt
        omega
      refine ⟨c :: rest.take width ++ skipped, tail, before', ?_, ?_⟩
      · rw [List.append_assoc, ← hrest, List.cons_append, List.take_append_drop]
      · rw [← hhead, List.length_append, List.length_cons, List.length_take,
          Nat.min_eq_left hwidth]
        congr 1
        omega
  | case3 before start c rest hnone ih =>
    obtain ⟨skipped, tail, before', rfl, hhead⟩ := ih h
    refine ⟨c :: skipped, tail, before', rfl, ?_⟩
    rw [← hhead, List.length_cons]
    congr 1
    omega

/-- **A head stands where it says.** -/
lemma mem_heads {clients : List (List Char)} {text : List Char} {head : Head}
    (h : head ∈ heads clients text) :
    ∃ a gap tail, text = a ++ "await".toList ++ gap ++ head.client ++ tail ∧
      head.awaitAt = a.length ∧ head.clientAt = (a ++ "await".toList ++ gap).length ∧
      gap ≠ [] ∧ (∀ c ∈ gap, Text.isBlank c = true) ∧ head.client ∈ clients ∧
      Text.isBoundary (gap ++ head.client).getLast? tail.head? = true := by
  obtain ⟨skipped, rest, before, rfl, hhead⟩ := mem_headsFrom h
  obtain ⟨lead, gap, tail, rfl, -, hawaitAt, hclientAt, hrest⟩ := head?_eq_some hhead
  refine ⟨skipped ++ lead, gap, tail, by simp, ?_, ?_, hrest⟩
  · simp only [hawaitAt, List.length_append]
    omega
  · simp only [hclientAt, List.length_append]
    omega

/-! ## Queries -/

/-- How a text is cut at a query: what stands in front of `await`, the blanks behind it, the calls
behind the client, and the text behind them. -/
structure StandsIn (wrapping : Settings.Wrapping) (query : Query) (text a gap calls b : List Char) :
    Prop where
  /-- The parts make up the text. -/
  text_eq : text = a ++ "await".toList ++ gap ++ query.client.toList ++ calls ++ b
  awaitAt_eq : query.awaitAt = a.length
  exprAt_eq : query.exprAt = (a ++ "await".toList ++ gap).length
  stop_eq : query.stop = (a ++ "await".toList ++ gap ++ query.client.toList ++ calls).length
  gap_ne_nil : gap ≠ []
  gap_blank : ∀ c ∈ gap, Text.isBlank c = true
  client_mem : query.client ∈ wrapping.clients
  /-- The calls are all the calls that follow the client, and they have the query's shape. -/
  chain : ∃ methods, Code.chain? (calls ++ b) = some (methods, b) ∧
    shape? query.client methods = some query.shape
  /-- The statement ends behind the calls. -/
  ends : Code.endsStatement b = true

/-- What a head needs to be accepted. -/
lemma judge_accepted {text : List Char} {inert : List Code.Span} {head : Head} {query : Query}
    (h : judge text inert head = .accepted query) :
    ∃ methods rest, Code.chain? (text.drop head.stop) = some (methods, rest) ∧
      Code.endsStatement rest = true ∧
      shape? (String.ofList head.client) methods = some query.shape ∧
      query.awaitAt = head.awaitAt ∧ query.exprAt = head.clientAt ∧
      query.stop = text.length - rest.length ∧ query.client = String.ofList head.client := by
  unfold judge at h
  split at h
  · simp at h
  · split at h
    · simp at h
    · split at h
      · simp at h
      · rename_i methods rest hchain
        dsimp only at h
        split at h
        · simp at h
        · rename_i shape hshape
          split at h
          · rename_i hends
            obtain rfl := Verdict.accepted.inj h
            exact ⟨methods, rest, hchain, hends, hshape, rfl, rfl, rfl, rfl⟩
          · simp at h

/-- A query comes from a head that is accepted. -/
lemma exists_head_of_mem_findAll {wrapping : Settings.Wrapping} {text : List Char} {query : Query}
    (h : query ∈ findAll wrapping text) :
    ∃ head ∈ heads (wrapping.clients.map String.toList) text,
      judge text (Code.spans text) head = .accepted query := by
  obtain ⟨⟨head, verdict⟩, hcandidate, hquery⟩ := List.mem_filterMap.mp h
  obtain ⟨head', hhead, heq⟩ := List.mem_map.mp hcandidate
  obtain ⟨rfl, rfl⟩ := Prod.mk.inj heq
  refine ⟨head', hhead, ?_⟩
  unfold Verdict.query? at hquery
  split at hquery
  · rename_i accepted hverdict
    dsimp only at hverdict
    rw [hverdict, Option.some.inj hquery]
  · simp at hquery

/-- **A query stands where it says.** -/
lemma mem_findAll {wrapping : Settings.Wrapping} {text : List Char} {query : Query}
    (h : query ∈ findAll wrapping text) :
    ∃ a gap calls b, StandsIn wrapping query text a gap calls b := by
  obtain ⟨head, hhead, haccepted⟩ := exists_head_of_mem_findAll h
  obtain ⟨a, gap, tail, rfl, hawaitAt, hclientAt, hne, hblank, hmem, -⟩ := mem_heads hhead
  obtain ⟨methods, rest, hchain, hends, hshape, hawait, hexpr, hstop, hclient⟩ :=
    judge_accepted haccepted
  have hdrop : (a ++ "await".toList ++ gap ++ head.client ++ tail).drop head.stop = tail := by
    have hlength : head.stop = (a ++ "await".toList ++ gap ++ head.client).length := by
      rw [Head.stop, hclientAt, ← List.length_append]
    rw [hlength, List.drop_left]
  rw [hdrop] at hchain
  obtain ⟨calls, -, htail, -⟩ := Code.chain?_ends hchain
  have hclient' : query.client.toList = head.client := by rw [hclient, String.toList_ofList]
  refine ⟨a, gap, calls ++ [')'], rest, ?_, ?_, ?_, ?_, hne, hblank, ?_, ⟨methods, ?_, ?_⟩, hends⟩
  · rw [htail, hclient']
    simp
  · rw [hawait, hawaitAt]
  · rw [hexpr, hclientAt]
  · rw [hstop, htail, hclient']
    simp only [List.length_append, List.length_cons, List.length_nil]
    omega
  · obtain ⟨client, hmem, heq⟩ := List.mem_map.mp hmem
    rw [hclient, ← heq, String.ofList_toList]
    exact hmem
  · rw [List.append_assoc, List.singleton_append, ← htail]
    exact hchain
  · rw [hclient]
    exact hshape

namespace StandsIn

variable {wrapping : Settings.Wrapping} {query : Query} {text a gap calls b : List Char}

/-- The calls end with a parenthesis, and trivia lead to their first dot. -/
lemma calls_ends (h : StandsIn wrapping query text a gap calls b) :
    (∃ front, calls = front ++ [')']) ∧ ∃ tail, Code.skipTrivia (calls ++ b) = '.' :: tail := by
  obtain ⟨methods, hchain, -⟩ := h.chain
  obtain ⟨front, tail, heq, hskip⟩ := Code.chain?_ends hchain
  refine ⟨⟨front, (List.append_left_inj b).mp ?_⟩, tail, hskip⟩
  simpa using heq

/-- The arguments of a query are its calls. -/
lemma arguments_eq (h : StandsIn wrapping query text a gap calls b) :
    arguments text query = calls := by
  rw [arguments, h.stop_eq, h.exprAt_eq, h.text_eq, List.take_left]
  have hlength : (a ++ "await".toList ++ gap).length + query.client.length
      = (a ++ "await".toList ++ gap ++ query.client.toList).length := by
    simp only [List.length_append, String.length_toList]
  rw [hlength, List.drop_left]

/-- Wrapping replaces the awaited expression and keeps what stands around it. -/
lemma wrapText_eq (h : StandsIn wrapping query text a gap calls b) (policy : Policy)
    (parameters : List (List Char)) :
    wrapText wrapping policy parameters text query
      = a ++ wrappedExpression wrapping policy parameters (indentAfter a)
          (query.client.toList ++ calls) ++ b := by
  have hbefore : text.take query.awaitAt = a := by
    rw [h.awaitAt_eq, h.text_eq]
    simp only [List.append_assoc, List.take_left]
  have hexpr : (text.take query.stop).drop query.exprAt = query.client.toList ++ calls := by
    have hcut : a ++ "await".toList ++ gap ++ query.client.toList ++ calls
        = (a ++ "await".toList ++ gap) ++ (query.client.toList ++ calls) := by simp
    rw [h.stop_eq, h.exprAt_eq, h.text_eq, List.take_left, hcut, List.drop_left]
  have hafter : text.drop query.stop = b := by
    rw [h.stop_eq, h.text_eq, List.drop_left]
  unfold wrapText
  rw [hbefore, hexpr, hafter]

end StandsIn

end CachedRoutes.Query
