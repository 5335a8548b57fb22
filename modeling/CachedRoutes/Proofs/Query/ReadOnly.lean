import CachedRoutes.Proofs.Code.Chain
import CachedRoutes.Proofs.Query.Match

/-!
# Queries only read

A query is handed to the cache, so it must not change anything, and it must be whole. Here is what is
known of each query that is found, from the declaration to the last call.

* **Order.** `findAll_pairwise`: heads do not overlap, so queries come in the order of their `await`.
* **Methods.** `shape?_eq_some_iff`: the chains that have a shape are the chains of read methods, with
  `from` and the choice of a row at their places (`ReadsOnly`), and the shape is read off the names
  (`HasShape`).
* **Queries.** `findAll_reads_only` puts the two together with the grammar of chains.
-/

namespace CachedRoutes.Query

/-! ## Order -/

/-- A head starts in front of its `await`, and its client ends behind it. -/
lemma head?_order {clients : List (List Char)} {before : Option Char} {start : Nat}
    {text : List Char} {head : Head} (h : head? clients before start text = some head) :
    head.start = start ∧ start ≤ head.awaitAt ∧ head.awaitAt < head.clientAt ∧
      head.clientAt ≤ head.stop := by
  obtain ⟨lead, gap, tail, -, hstart, hawait, hclient, hgap, -⟩ := head?_eq_some h
  have hlength : 0 < gap.length := List.length_pos_iff.mpr hgap
  rw [List.length_append, List.length_append] at hclient
  refine ⟨hstart, by omega, by omega, Nat.le_add_right _ _⟩

/-- Heads do not overlap: the search goes on behind the client of the last one. -/
lemma headsFrom_pairwise (clients : List (List Char)) (before : Option Char) (start : Nat)
    (text : List Char) :
    (∀ head ∈ headsFrom clients before start text, start ≤ head.start) ∧
      (headsFrom clients before start text).Pairwise fun a b => a.stop ≤ b.start := by
  fun_induction headsFrom clients before start text with
  | case1 => simp
  | case2 before start c rest head hhead width ih =>
    obtain ⟨hstart, hawait, hclient, hstop⟩ := head?_order hhead
    obtain ⟨hlater, hpairs⟩ := ih
    have hwidth : width = head.stop - start - 1 := rfl
    constructor
    · intro other hother
      rcases List.mem_cons.mp hother with rfl | hother
      · omega
      · have := hlater other hother
        omega
    · refine List.Pairwise.cons ?_ hpairs
      intro other hother
      have := hlater other hother
      omega
  | case3 before start c rest hnone ih =>
    obtain ⟨hlater, hpairs⟩ := ih
    refine ⟨fun other hother => ?_, hpairs⟩
    have := hlater other hother
    omega

/-- A head of a text starts in front of its `await`, and its client ends behind it. -/
lemma mem_heads_order {clients : List (List Char)} {text : List Char} {head : Head}
    (h : head ∈ heads clients text) :
    head.start ≤ head.awaitAt ∧ head.awaitAt < head.clientAt ∧ head.clientAt ≤ head.stop := by
  obtain ⟨skipped, rest, before, -, hhead⟩ := mem_headsFrom h
  obtain ⟨hstart, hawait, hclient, hstop⟩ := head?_order hhead
  exact ⟨by omega, hclient, hstop⟩

/-- **Queries come in the order of their `await`.** -/
lemma findAll_pairwise (wrapping : Settings.Wrapping) (text : List Char) :
    (findAll wrapping text).Pairwise fun a b => a.awaitAt < b.awaitAt := by
  have hheads := (headsFrom_pairwise (wrapping.clients.map String.toList) none 0 text).2
  unfold findAll candidates heads
  rw [List.filterMap_map, List.pairwise_filterMap]
  refine hheads.imp_of_mem ?_
  intro first second hfirst hsecond hstop a ha b hb
  obtain ⟨-, hawait, hclient⟩ := mem_heads_order hfirst
  obtain ⟨hstart, -, -⟩ := mem_heads_order hsecond
  have haccepted : ∀ {verdict : Verdict} {query : Query}, verdict.query? = some query →
      verdict = .accepted query := by
    intro verdict query hquery
    unfold Verdict.query? at hquery
    split at hquery
    · rw [Option.some.inj hquery]
    · simp at hquery
  obtain ⟨-, -, -, -, -, hfirstAt, -⟩ := judge_accepted (haccepted ha)
  obtain ⟨-, -, -, -, -, hsecondAt, -⟩ := judge_accepted (haccepted hb)
  omega

/-! ## Methods -/

/-- The methods of a chain that only reads: read methods, with `from` at the start if anywhere, and
always if the client holds no query yet. A row is picked at the end if at all. -/
structure ReadsOnly (client : String) (methods : List String) : Prop where
  read : ∀ method ∈ methods, method ∈ readMethods
  rooted : methods.head? = some "from" ∨ client ∈ prebuiltClients
  from_first : "from" ∉ methods.tail
  picks_last : ∀ method ∈ methods.dropLast, method ≠ "single" ∧ method ≠ "maybeSingle"

/-- The last method picks a row. -/
def PicksLast (methods : List String) : Prop :=
  methods.getLast? = some "single" ∨ methods.getLast? = some "maybeSingle"

/-- Some method orders or cuts the rows. -/
def Orders (methods : List String) : Prop :=
  ∃ method ∈ methods, method = "order" ∨ method = "range" ∨ method = "limit"

/-- The shape that goes with the methods: a single row if the last one picks it, else an ordered list
if one orders, else a selection, which starts with `from`. -/
structure HasShape (methods : List String) (shape : Shape) : Prop where
  single_iff : shape = .singleRow ↔ PicksLast methods
  ordered_iff : shape = .orderedList ↔ ¬ PicksLast methods ∧ Orders methods
  select_iff : shape = .select ↔ ¬ PicksLast methods ∧ ¬ Orders methods
  select_rooted : shape = .select → methods.head? = some "from"

/-- A row is picked by `single` and `maybeSingle`. -/
lemma picksRow_iff {method : String} :
    picksRow method = true ↔ method = "single" ∨ method = "maybeSingle" := by
  simp [picksRow]

/-- The test for methods that order rows is their description. -/
lemma any_ordersRows_iff {methods : List String} :
    methods.any ordersRows = true ↔ Orders methods := by
  simp [Orders, ordersRows]

/-- Where no earlier method picks a row, one picks it exactly if the last one does. -/
lemma any_picksRow_iff {methods : List String}
    (h : ∀ method ∈ methods.dropLast, method ≠ "single" ∧ method ≠ "maybeSingle") :
    methods.any picksRow = true ↔ PicksLast methods := by
  rcases List.eq_nil_or_concat methods with rfl | ⟨front, last, rfl⟩
  · simp [PicksLast]
  · rw [List.concat_eq_append, List.dropLast_concat] at h
    have hfront : front.any picksRow = false := by
      rw [List.any_eq_false]
      intro method hmethod
      rw [picksRow_iff]
      exact not_or.mpr (h method hmethod)
    unfold PicksLast
    simp [hfront, picksRow]

/-- No method but the last picks a row. -/
lemma any_dropLast_iff {methods : List String} :
    methods.dropLast.any picksRow = false ↔
      ∀ method ∈ methods.dropLast, method ≠ "single" ∧ method ≠ "maybeSingle" := by
  rw [List.any_eq_false]
  simp only [picksRow_iff, not_or, ne_eq]

/-- The shape of a chain, given its last conditions. -/
lemma hasShape_iff {client : String} {methods : List String} {shape : Shape}
    (h : ReadsOnly client methods) :
    HasShape methods shape ↔
      (if methods.any picksRow then some .singleRow
        else if methods.any ordersRows then some .orderedList
        else if methods.head? = some "from" then some .select
        else none) = some shape := by
  have hpicks := any_picksRow_iff h.picks_last
  have horders : methods.any ordersRows = true ↔ Orders methods := any_ordersRows_iff
  constructor
  · rintro ⟨hsingle, hordered, hselect, hrooted⟩
    cases shape with
    | singleRow => rw [if_pos (hpicks.mpr (hsingle.mp rfl))]
    | orderedList =>
      obtain ⟨hlast, hsome⟩ := hordered.mp rfl
      rw [if_neg (hpicks.not.mpr hlast), if_pos (horders.mpr hsome)]
    | select =>
      obtain ⟨hlast, hnone⟩ := hselect.mp rfl
      rw [if_neg (hpicks.not.mpr hlast), if_neg (horders.not.mpr hnone), if_pos (hrooted rfl)]
  · intro hshape
    split at hshape
    · rename_i hany
      obtain rfl := Option.some.inj hshape
      have hlast := hpicks.mp hany
      exact ⟨by simp [hlast], by simp [hlast], by simp [hlast], by simp⟩
    · rename_i hany
      have hlast := hpicks.not.mp hany
      split at hshape
      · rename_i hsome
        obtain rfl := Option.some.inj hshape
        have hsome := horders.mp hsome
        exact ⟨by simp [hlast], by simp [hlast, hsome], by simp [hsome], by simp⟩
      · rename_i hnone
        have hnone := horders.not.mp hnone
        split at hshape
        · rename_i hrooted
          obtain rfl := Option.some.inj hshape
          exact ⟨by simp [hlast], by simp [hnone], by simp [hlast, hnone], fun _ => hrooted⟩
        · simp at hshape

/-- **The chains that have a shape.** -/
lemma shape?_eq_some_iff {client : String} {methods : List String} {shape : Shape} :
    shape? client methods = some shape ↔ ReadsOnly client methods ∧ HasShape methods shape := by
  unfold shape?
  dsimp only
  constructor
  · intro h
    split at h
    · simp at h
    rename_i hread
    split at h
    · simp at h
    rename_i hrooted
    split at h
    · simp at h
    rename_i hfrom
    have hfirst : methods.head? = some "from" ∨ client ∈ prebuiltClients := by
      by_contra hneither
      rw [not_or] at hneither
      simp [hneither.1, hneither.2] at hrooted
    have hread : ∀ method ∈ methods, method ∈ readMethods := by simpa using hread
    have hfrom : "from" ∉ methods.tail := by simpa using hfrom
    by_cases hpicks : methods.any picksRow = true
    · rw [if_pos hpicks] at h
      split at h
      · simp at h
      rename_i hearlier
      have hreads : ReadsOnly client methods :=
        ⟨hread, hfirst, hfrom, any_dropLast_iff.mp (by simpa using hearlier)⟩
      refine ⟨hreads, (hasShape_iff hreads).mpr ?_⟩
      rw [if_pos hpicks]
      exact h
    · have hnone : ∀ method ∈ methods.dropLast, method ≠ "single" ∧ method ≠ "maybeSingle" := by
        intro method hmethod
        rw [Bool.not_eq_true, List.any_eq_false] at hpicks
        have := hpicks method (List.dropLast_subset methods hmethod)
        rwa [picksRow_iff, not_or] at this
      have hreads : ReadsOnly client methods := ⟨hread, hfirst, hfrom, hnone⟩
      refine ⟨hreads, (hasShape_iff hreads).mpr ?_⟩
      rw [if_neg hpicks] at h ⊢
      simpa using h
  · rintro ⟨hreads, hshape⟩
    rw [hasShape_iff hreads] at hshape
    have hread : methods.all readMethods.contains = true := by simpa using hreads.read
    have hrooted : (!(methods.head? == some "from") && !prebuiltClients.contains client) = false := by
      rcases hreads.rooted with hfrom | hprebuilt
      · simp [hfrom]
      · simp [hprebuilt]
    have hfrom : methods.tail.contains "from" = false := by simpa using hreads.from_first
    have hearlier : methods.dropLast.any picksRow = false := any_dropLast_iff.mpr hreads.picks_last
    rw [hread, hrooted, hfrom, hearlier]
    simpa using hshape

/-! ## Queries -/

/-- **Only complete chains of reads are queries.** The queries of a text come in the order of their
`await`. For each of them, `await`, the client and the end of the chain follow each other in the text.
`await` and the client, one of those configured, stand where the query says, and the chain ends with a
parenthesis. From the client to that end there are calls, at least one, and no further call follows.
Their methods only read, and they have the shape of the query. -/
theorem findAll_reads_only (wrapping : Settings.Wrapping) (text : List Char) :
    ((findAll wrapping text).Pairwise fun a b => a.awaitAt < b.awaitAt) ∧
    ∀ query ∈ findAll wrapping text,
      (query.awaitAt < query.exprAt ∧ query.exprAt < query.stop ∧ query.stop ≤ text.length) ∧
      "await".toList <+: text.drop query.awaitAt ∧
      query.client ∈ wrapping.clients ∧ query.client.toList <+: text.drop query.exprAt ∧
      text[query.stop - 1]? = some ')' ∧
      ∃ methods, methods ≠ [] ∧
        Code.Calls methods (arguments text query) ∧
        (Code.skipTrivia (text.drop query.stop)).head? ≠ some '.' ∧
        ReadsOnly query.client methods ∧ HasShape methods query.shape := by
  refine ⟨findAll_pairwise wrapping text, ?_⟩
  intro query hquery
  obtain ⟨front, gap, calls, rest, hstands⟩ := mem_findAll hquery
  obtain ⟨⟨inner, hinner⟩, -⟩ := hstands.calls_ends
  obtain ⟨methods, hchain, hshape⟩ := hstands.chain
  obtain ⟨hne, calls', hcut, hcalls, hend⟩ := Code.exists_chain hchain
  obtain rfl : calls = calls' := List.append_cancel_right hcut
  have hgap : 0 < gap.length := List.length_pos_iff.mpr hstands.gap_ne_nil
  have hbehind : text.drop query.stop = rest := by
    rw [hstands.stop_eq, hstands.text_eq, List.drop_left]
  rw [hstands.arguments_eq, hbehind]
  refine ⟨⟨?_, ?_, ?_⟩, ?_, hstands.client_mem, ?_, ?_, methods, hne, hcalls, hend,
    shape?_eq_some_iff.mp hshape⟩
  · rw [hstands.awaitAt_eq, hstands.exprAt_eq]
    simp only [List.length_append]
    omega
  · rw [hstands.exprAt_eq, hstands.stop_eq, hinner]
    simp only [List.length_append, List.length_cons]
    omega
  · rw [hstands.stop_eq, hstands.text_eq]
    exact (List.prefix_append _ _).length_le
  · rw [hstands.awaitAt_eq, hstands.text_eq]
    simp only [List.append_assoc, List.drop_left]
    exact List.prefix_append _ _
  · have hsplit : text = (front ++ "await".toList ++ gap) ++ (query.client.toList ++ (calls ++ rest)) := by
      rw [hstands.text_eq]
      simp only [List.append_assoc]
    rw [hstands.exprAt_eq, hsplit, List.drop_left]
    exact List.prefix_append _ _
  · have hsplit : text = (front ++ "await".toList ++ gap ++ query.client.toList ++ inner)
        ++ ')' :: rest := by
      rw [hstands.text_eq, hinner]
      simp only [List.append_assoc, List.cons_append, List.nil_append]
    have hlast : query.stop - 1
        = (front ++ "await".toList ++ gap ++ query.client.toList ++ inner).length := by
      rw [hstands.stop_eq, hinner]
      simp only [List.length_append, List.length_cons, List.length_nil]
      omega
    rw [hlast, hsplit, List.getElem?_append_right (Nat.le_refl _), Nat.sub_self]
    rfl

/-- A text with two queries. The first one has a comment in its chain, the second one starts from a
query that is built already, and picks a row. -/
theorem findAll_reads_only_rows :
    let text := "const \x7b data \x7d = await supabase // rows\n  .from('a').select()\n".toList
      ++ "let \x7bdata\x7d = await query.limit(1).single();".toList
    let first : Query := ⟨17, 23, 61, "supabase", .select⟩
    let second : Query := ⟨75, 81, 104, "query", .singleRow⟩
    findAll {} text = [first, second] ∧ first.awaitAt < second.awaitAt ∧
      (∃ methods, Code.Calls methods (arguments text first) ∧ methods.head? = some "from") ∧
      ∃ methods, Code.Calls methods (arguments text second) ∧ PicksLast methods := by
  intro text first second
  have hfound : findAll {} text = [first, second] := by
    rw [show text = _ ++ _ from congrArg₂ (· ++ ·) String.toList_ofList String.toList_ofList]
    decide +kernel
  obtain ⟨hordered, hall⟩ := findAll_reads_only {} text
  rw [hfound] at hordered hall
  obtain ⟨-, -, -, -, -, methods, -, hcalls, -, -, hshape⟩ := hall first (by simp)
  obtain ⟨-, -, -, -, -, methods', -, hcalls', -, -, hshape'⟩ := hall second (by simp)
  refine ⟨hfound, (List.pairwise_cons.mp hordered).1 second (by simp), ?_, ?_⟩
  · exact ⟨methods, hcalls, hshape.select_rooted rfl⟩
  · exact ⟨methods', hcalls', hshape'.single_iff.mp rfl⟩

end CachedRoutes.Query
