import CachedRoutes.Proofs.Bytes.Input
import CachedRoutes.Proofs.Codemod.Idempotence
import CachedRoutes.Proofs.Query.Keyed
import CachedRoutes.Proofs.Query.LocalEdit

/-!
# A whole run by byte offsets

The run of the codemod, with every position a byte offset and every part of the text cut out at such
offsets. Where a text is matched against a pattern, the offsets are those of the match.

* **Positions** (`byteOffset_lt_iff`): offsets are in the order of the positions, so that a head lies in
  a span by offsets exactly if it does by positions.
* **Queries** (`find_eq`): the heads are judged as before.
* **Wrapping** (`lineIndent_eq`, `wrap_eq`): the parts around the query and its indent are cut out.
* **Imports** (`extend_eq`, `ensure_eq`): the same for the brace lists and the anchor.
* **Runs** (`run_by_offsets_never_fails`): for any codemod, route and text a run has a value, and with
  it the search for queries, the search for request input, the wrapping and the imports.
-/

namespace CachedRoutes.Bytes

/-! ## Positions -/

/-- The offset of a position is the place of what follows it. -/
lemma at_byteOffset (text : List Char) (n : Nat) :
    At text (Text.byteOffset text n) (text.drop n) :=
  ⟨text.take n, (List.take_append_drop n text).symm, rfl⟩

/-- The place of the second of two texts. -/
lemma at_append (front rest : List Char) :
    At (front ++ rest) (Text.byteOffset (front ++ rest) front.length) rest := by
  have hat := at_byteOffset (front ++ rest) front.length
  rwa [List.drop_left] at hat

/-- The offset of a position further on lies further on by the bytes in between. -/
lemma byteOffset_add (text : List Char) (n k : Nat) :
    Text.byteOffset text (n + k)
      = Text.byteOffset text n + Text.utf8Length ((text.drop n).take k) := by
  unfold Text.byteOffset
  rw [List.take_add, Text.utf8Length_append]

/-- Offsets are in the order of the positions. -/
lemma byteOffset_lt_iff {text : List Char} {m n : Nat} (hm : m < text.length) :
    Text.byteOffset text m < Text.byteOffset text n ↔ m < n := by
  constructor
  · intro hlt
    by_contra hle
    obtain ⟨k, rfl⟩ := Nat.exists_eq_add_of_le (Nat.not_lt.mp hle)
    rw [byteOffset_add] at hlt
    omega
  · intro hlt
    obtain ⟨k, rfl⟩ := Nat.exists_eq_add_of_lt hlt
    obtain ⟨c, rest, hdrop⟩ := List.exists_cons_of_ne_nil
      (show text.drop m ≠ [] by simpa using hm)
    have hpos := c.utf8Size_pos
    rw [Nat.add_assoc, byteOffset_add, hdrop, List.take_succ_cons, Text.utf8Length]
    omega

/-- A position of the text lies in a span exactly if its offset does. -/
lemma covers_spanOffsets {text : List Char} {n : Nat} (hn : n < text.length) (span : Code.Span) :
    (spanOffsets text span).covers (Text.byteOffset text n) = span.covers n := by
  unfold Code.Span.covers spanOffsets
  rw [Bool.eq_iff_iff, Bool.and_eq_true, Bool.and_eq_true, decide_eq_true_eq, decide_eq_true_eq,
    decide_eq_true_eq, decide_eq_true_eq, byteOffset_lt_iff hn, ← Nat.not_lt, byteOffset_lt_iff hn,
    Nat.not_lt]

/-! ## Queries -/

/-- The chain of calls from an offset on, and the offset behind it. -/
def chain (text : List Char) (i : Nat) : Option (Option (List String × Nat)) := do
  match ← calls text [] i with
  | some (names, stop) => return if names.isEmpty then none else some (names, stop)
  | none => return none

/-- From a place, a chain is found as it is found in the rest. -/
lemma chain_at {text rest : List Char} {i : Nat} (h : At text i rest) :
    ∃ found, chain text i = some found ∧
      Option.Rel (fun found listed => found.1 = listed.1 ∧ At text found.2 listed.2) found
        (Code.chain? rest) := by
  obtain ⟨found, hcalls, hrel⟩ := calls_at [] h
  unfold chain Code.chain?
  rw [hcalls]
  generalize Code.calls? rest = listed at hrel
  cases hrel with
  | none => exact ⟨none, rfl, .none⟩
  | some hfound =>
    rename_i found listed
    obtain ⟨written, stop⟩ := found
    obtain ⟨names, rest⟩ := listed
    obtain ⟨hnames, hat⟩ := hfound
    cases names with
    | nil =>
      obtain rfl : written = [] := hnames
      exact ⟨none, rfl, .none⟩
    | cons name names =>
      obtain rfl : written = name :: names := hnames
      exact ⟨some (name :: names, stop), rfl, .some ⟨rfl, hat⟩⟩

/-- A head by byte offsets, for one by character positions. -/
def headOffsets (text : List Char) (head : Query.Head) : Query.Head :=
  { head with
    start := Text.byteOffset text head.start
    awaitAt := Text.byteOffset text head.awaitAt
    clientAt := Text.byteOffset text head.clientAt }

/-- A query by byte offsets, for one by character positions. -/
def queryOffsets (text : List Char) (query : Query) : Query :=
  { query with
    awaitAt := Text.byteOffset text query.awaitAt
    exprAt := Text.byteOffset text query.exprAt
    stop := Text.byteOffset text query.stop }

/-- A verdict by byte offsets, for one by character positions. -/
def verdictOffsets (text : List Char) : Query.Verdict → Query.Verdict
  | .accepted query => .accepted (queryOffsets text query)
  | other => other

/-- The verdict on a head that is given by byte offsets. -/
def judge (text : List Char) (inert : List Code.Span) (head : Query.Head) : Option Query.Verdict := do
  if inert.any fun span => span.covers head.start then return .inert
  else if !Text.hasWord "data".toList none head.bindings then return .noData
  else
    match ← chain text (head.clientAt + Text.utf8Length head.client) with
    | none => return .noChain
    | some (methods, stop) =>
      let client := String.ofList head.client
      match Query.shape? client methods with
      | none => return .unknownShape methods
      | some shape =>
        let (_, rest) ← split text stop
        if Code.endsStatement rest then
          return .accepted { awaitAt := head.awaitAt, exprAt := head.clientAt, stop, client, shape }
        else return .continues methods

/-- The queries of a text, by byte offsets. -/
def find (wrapping : Settings.Wrapping) (text : List Char) : Option (List Query) := do
  let inert ← spans (encode text) 0
  let heads := (Query.heads (wrapping.clients.map String.toList) text).map (headOffsets text)
  let verdicts ← heads.mapM (judge text inert)
  return verdicts.filterMap Query.Verdict.query?

/-- The head of a query starts before the end of the text. -/
lemma start_lt_of_mem_heads {clients : List (List Char)} {text : List Char} {head : Query.Head}
    (h : head ∈ Query.heads clients text) : head.start < text.length := by
  obtain ⟨skipped, rest, before, rfl, hhead⟩ := Query.mem_headsFrom h
  obtain ⟨lead, gap, tail, rfl, hstart, -⟩ := Query.head?_eq_some hhead
  have hawait : 0 < "await".toList.length := by decide
  rw [hstart]
  simp only [List.length_append]
  omega

/-- **A head has the same verdict by offsets.** -/
lemma judge_eq {clients : List (List Char)} {text : List Char} {head : Query.Head}
    (h : head ∈ Query.heads clients text) (inert : List Code.Span) :
    judge text (inert.map (spanOffsets text)) (headOffsets text head)
      = some (verdictOffsets text (Query.judge text inert head)) := by
  have hinert : (inert.map (spanOffsets text)).any
      (fun span => span.covers (headOffsets text head).start)
        = inert.any fun span => span.covers head.start := by
    rw [List.any_map]
    congr 1
    funext span
    exact covers_spanOffsets (start_lt_of_mem_heads h) span
  obtain ⟨a, gap, tail, htext, -, hclientAt, -⟩ := Query.mem_heads h
  -- the chain starts behind the client
  have hplace : At text (Text.byteOffset text head.clientAt + Text.utf8Length head.client)
      (text.drop head.stop) := by
    have hat := at_append (a ++ "await".toList ++ gap) (head.client ++ tail)
    rw [← List.append_assoc, ← htext, ← hclientAt] at hat
    have hdrop : text.drop head.stop = tail := by
      rw [Query.Head.stop, hclientAt, ← List.length_append, htext, List.drop_left]
    rw [hdrop]
    exact hat.append
  obtain ⟨found, hchain, hrel⟩ := chain_at hplace
  unfold judge Query.judge
  rw [hinert]
  by_cases hcovered : (inert.any fun span => span.covers head.start) = true
  · rw [if_pos hcovered, if_pos hcovered]
    rfl
  rw [if_neg hcovered, if_neg hcovered]
  by_cases hdata : (!Text.hasWord "data".toList none head.bindings) = true
  · rw [if_pos hdata, show (headOffsets text head).bindings = head.bindings from rfl, if_pos hdata]
    rfl
  rw [if_neg hdata, show (headOffsets text head).bindings = head.bindings from rfl, if_neg hdata]
  change (chain text (Text.byteOffset text head.clientAt + Text.utf8Length head.client)).bind _ = _
  rw [hchain, Option.bind_some]
  generalize Code.chain? (text.drop head.stop) = listed at hrel ⊢
  cases hrel with
  | none => rfl
  | some hfound =>
    rename_i found listed
    obtain ⟨methods, stop⟩ := found
    obtain ⟨names, rest⟩ := listed
    obtain rfl : methods = names := hfound.1
    have hat : At text stop rest := hfound.2
    obtain ⟨front, htext, hfront, hsplit⟩ := hat.split
    have hstop : stop = Text.byteOffset text (text.length - rest.length) := by
      apply (At.counts text).eq_offset hat
      rw [htext, List.length_append, Nat.add_sub_cancel]
    dsimp only [headOffsets]
    cases Query.shape? (String.ofList head.client) methods with
    | none => rfl
    | some shape =>
      simp only [hsplit, Option.bind_eq_bind, Option.bind_some]
      by_cases hends : Code.endsStatement rest = true
      · rw [if_pos hends, if_pos hends, hstop]
        rfl
      · rw [if_neg hends, if_neg hends]
        rfl

/-- A verdict by offsets has the query by offsets. -/
lemma query?_verdictOffsets (text : List Char) (verdict : Query.Verdict) :
    (verdictOffsets text verdict).query? = verdict.query?.map (queryOffsets text) := by
  cases verdict <;> rfl

/-- **The queries by offsets** are those of the text. -/
lemma find_eq (wrapping : Settings.Wrapping) (text : List Char) :
    find wrapping text = some ((Query.findAll wrapping text).map (queryOffsets text)) := by
  unfold find
  rw [spans_encode]
  dsimp only [Option.bind_eq_bind, Option.bind_some]
  have hjudged : ((Query.heads (wrapping.clients.map String.toList) text).map
        (headOffsets text)).mapM (judge text ((Code.spans text).map (spanOffsets text)))
      = some ((Query.heads (wrapping.clients.map String.toList) text).map fun head =>
          verdictOffsets text (Query.judge text (Code.spans text) head)) := by
    refine mapM_eq_some_of_forall₂ ?_
    rw [List.forall₂_map_left_iff, List.forall₂_map_right_iff, List.forall₂_same]
    exact fun head hhead => judge_eq hhead (Code.spans text)
  rw [hjudged, Option.bind_some, Option.pure_def]
  unfold Query.findAll Query.candidates
  rw [List.filterMap_map, List.filterMap_map, List.map_filterMap]
  congr 2
  funext head
  exact query?_verdictOffsets text _

/-! ## Wrapping -/

/-- The offset behind the last line feed of a text, or its start. -/
def lineStart (text : List Char) : Nat :=
  Text.utf8Length (text.reverse.dropWhile (· != '\n')).reverse

/-- The spaces and tabs that start the line of an offset. -/
def lineIndent (text : List Char) (i : Nat) : Option (List Char) := do
  let (front, _) ← split text i
  let (_, line) ← split text (lineStart front)
  let width ← (Text.utf8Length line).psub (Text.utf8Length (line.dropWhile Text.isIndent))
  let (indent, _) ← split line width
  return indent

/-- The indent of a line ends in front of `right`. -/
lemma lineIndent_eq {left right : List Char} (h : ∀ c ∈ right.head?, Text.isIndent c = false) :
    lineIndent (left ++ right) (Text.utf8Length left) = some (Query.indentAfter left) := by
  have hfront : split (left ++ right) (Text.utf8Length left) = some (left, right) :=
    split_eq_some_iff.mpr ⟨rfl, rfl⟩
  have hlines : (left.reverse.dropWhile (· != '\n')).reverse
      ++ (left.reverse.takeWhile (· != '\n')).reverse = left := by
    rw [← List.reverse_append, List.takeWhile_append_dropWhile, List.reverse_reverse]
  unfold lineIndent Query.indentAfter
  simp only [hfront, Option.bind_eq_bind, Option.bind_some]
  unfold lineStart
  generalize (left.reverse.dropWhile (· != '\n')).reverse = above at hlines ⊢
  generalize (left.reverse.takeWhile (· != '\n')).reverse = last at hlines ⊢
  subst hlines
  have hline : split (above ++ last ++ right) (Text.utf8Length above) = some (above, last ++ right) :=
    split_eq_some_iff.mpr ⟨List.append_assoc above last right, rfl⟩
  rw [hline, Option.bind_some, ← takeWhile_append_of_head h]
  generalize last ++ right = line
  have hwhole := Text.utf8Length_append (line.takeWhile Text.isIndent) (line.dropWhile Text.isIndent)
  rw [List.takeWhile_append_dropWhile] at hwhole
  have hwidth : (Text.utf8Length line).psub (Text.utf8Length (line.dropWhile Text.isIndent))
      = some (Text.utf8Length (line.takeWhile Text.isIndent)) :=
    Nat.psub_eq_some.mpr hwhole.symm
  have hsplit : split line (Text.utf8Length (line.takeWhile Text.isIndent))
      = some (line.takeWhile Text.isIndent, line.dropWhile Text.isIndent) :=
    split_eq_some_iff.mpr ⟨List.takeWhile_append_dropWhile.symm, rfl⟩
  rw [hwidth, Option.bind_some, hsplit]
  rfl

/-- An attempt by byte offsets, for one by character positions. -/
def attemptOffsets (text : List Char) : Query.Attempt → Query.Attempt
  | .wrapped query new => .wrapped (queryOffsets text query) new
  | other => other

/-- The attempt to wrap a query that is given by byte offsets. -/
def wrapQuery (wrapping : Settings.Wrapping) (route : Route) (policy : Policy) (text : List Char)
    (query : Query) : Option Query.Attempt := do
  let params := wrapping.params.toList
  match Query.unreadParameter? params text route.parameters with
  | some parameter => return .abstained (.unreadParameter params parameter)
  | none =>
    let expr ← cut text query.exprAt query.stop
    let (_, arguments) ← split expr (Text.utf8Length query.client.toList)
    match ← inputFrom ⟨params, route.parameters⟩ arguments none 0 with
    | some input => return .abstained (.requestInput input)
    | none =>
      let indent ← lineIndent text query.awaitAt
      let (front, _) ← split text query.awaitAt
      let (_, rest) ← split text query.stop
      return .wrapped query
        (front ++ Query.wrappedExpression wrapping policy route.parameters indent expr ++ rest)

/-- The attempt to wrap the query of a file, by byte offsets. -/
def wrap (wrapping : Settings.Wrapping) (route : Route) (policy : Policy) (text : List Char) :
    Option Query.Attempt := do
  if Code.callsFunction wrapping.wrapper.toList text then return .alreadyWrapped
  else
    match ← find wrapping text with
    | [] => return .abstained .noQuery
    | [query] => wrapQuery wrapping route policy text query
    | several => return .abstained (.severalQueries several.length)

section Cuts

variable {wrapping : Settings.Wrapping} {query : Query} {text front gap calls rest : List Char}

/-- A query stops at the place of what follows it. -/
lemma at_stop (h : Query.StandsIn wrapping query text front gap calls rest) :
    At text (queryOffsets text query).stop rest := by
  change At text (Text.byteOffset text query.stop) rest
  rw [h.stop_eq, h.text_eq]
  exact at_append _ _

/-- The expression of a query can be cut out by offsets. -/
lemma cut_expr (h : Query.StandsIn wrapping query text front gap calls rest) :
    cut text (queryOffsets text query).exprAt (queryOffsets text query).stop
      = some (query.client.toList ++ calls) := by
  have hexpr : At text (Text.byteOffset text query.exprAt)
      (query.client.toList ++ calls ++ rest) := by
    have htext : text = (front ++ "await".toList ++ gap) ++ (query.client.toList ++ calls ++ rest) := by
      rw [h.text_eq]
      simp only [List.append_assoc]
    rw [h.exprAt_eq, htext]
    exact at_append _ _
  exact hexpr.cut (at_stop h)

/-- At `await` the text can be cut by offsets, and its indent is found there. -/
lemma split_await (h : Query.StandsIn wrapping query text front gap calls rest) :
    lineIndent text (queryOffsets text query).awaitAt = some (Query.indentAfter front) ∧
      ∃ behind, split text (queryOffsets text query).awaitAt = some (front, behind) := by
  have htext : text = front ++ ("await".toList ++ (gap ++ query.client.toList ++ calls ++ rest)) := by
    rw [h.text_eq]
    simp only [List.append_assoc]
  have hawait : (queryOffsets text query).awaitAt = Text.utf8Length front := by
    change Text.byteOffset text query.awaitAt = _
    rw [h.awaitAt_eq, htext, Text.byteOffset, List.take_left]
  rw [hawait]
  constructor
  · rw [htext]
    apply lineIndent_eq
    exact fun c hc => Query.isIndent_of_await hc
  · exact ⟨_, split_eq_some_iff.mpr ⟨htext, rfl⟩⟩

end Cuts

/-- **A query is wrapped by offsets as by positions.** -/
lemma wrapQuery_eq {wrapping : Settings.Wrapping} (route : Route) (policy : Policy) {text : List Char}
    {query : Query} (h : query ∈ Query.findAll wrapping text) :
    wrapQuery wrapping route policy text (queryOffsets text query)
      = some (attemptOffsets text
          (match Query.objection? wrapping route text query with
          | some why => .abstained why
          | none => .wrapped query (Query.wrapText wrapping policy route.parameters text query))) := by
  obtain ⟨front, gap, calls, rest, hstands⟩ := Query.mem_findAll h
  obtain ⟨hindent, behind, hawait⟩ := split_await hstands
  obtain ⟨before, -, -, hstop⟩ := (at_stop hstands).split
  have hclient : split (query.client.toList ++ calls)
      (Text.utf8Length (queryOffsets text query).client.toList)
        = some (query.client.toList, calls) := split_eq_some_iff.mpr ⟨rfl, rfl⟩
  have hinput : inputFrom ⟨wrapping.params.toList, route.parameters⟩ calls none 0
      = some (Code.requestInput? ⟨wrapping.params.toList, route.parameters⟩ .plain calls) :=
    inputFrom_eq route.nil_notMem_parameters calls
  unfold wrapQuery Query.objection?
  dsimp only
  cases Query.unreadParameter? wrapping.params.toList text route.parameters with
  | some parameter => rfl
  | none =>
    dsimp only
    rw [cut_expr hstands, hstands.arguments_eq]
    simp only [hclient, hinput, Option.bind_eq_bind, Option.bind_some]
    cases Code.requestInput? ⟨wrapping.params.toList, route.parameters⟩ .plain calls with
    | some input => rfl
    | none =>
      dsimp only [Option.map_none]
      rw [hindent, hawait, hstop, hstands.wrapText_eq]
      rfl

/-- **The attempt by offsets** comes to the same. -/
lemma wrap_eq (wrapping : Settings.Wrapping) (route : Route) (policy : Policy) (text : List Char) :
    wrap wrapping route policy text
      = some (attemptOffsets text (Query.wrap wrapping route policy text)) := by
  unfold wrap Query.wrap
  by_cases hcalls : Code.callsFunction wrapping.wrapper.toList text = true
  · rw [if_pos hcalls, if_pos hcalls]
    rfl
  rw [if_neg hcalls, if_neg hcalls, find_eq, Option.bind_eq_bind, Option.bind_some]
  rcases hfound : Query.findAll wrapping text with _ | ⟨query, _ | ⟨second, others⟩⟩
  · rfl
  · exact wrapQuery_eq route policy (by simp [hfound])
  · change some (Query.Attempt.abstained (.severalQueries
      ((query :: second :: others).map (queryOffsets text)).length)) = _
    rw [List.length_map]
    rfl

/-! ## Imports -/

/-- The text with the symbols added to its first named import from the module, cut at the offsets of
the brace list. -/
def extend (specifier : List Char) (symbols : List (List Char)) (text : List Char) :
    Option (Option (List Char)) := do
  match Import.named? specifier text with
  | none => return none
  | some named =>
    let start := Text.utf8Length (Text.upTo text (named.names ++ named.after))
    let stop := Text.utf8Length (Text.upTo text named.after)
    let names ← cut text start stop
    let listed := Import.nameList names
    if listed.isEmpty then return none
    else
      let (front, _) ← split text start
      let (_, after) ← split text stop
      return some (front ++ ' ' :: Import.commaList (listed ++ symbols) ++ ' ' :: after)

/-- Adds to existing named imports, one addition after the other. -/
def extendAll : List Import.Addition → List Char → Option (List Char × List Import.Addition)
  | [], text => some (text, [])
  | addition :: additions, text => do
    match ← extend addition.specifier.toList (addition.symbols.map String.toList) text with
    | some extended => extendAll additions extended
    | none =>
      let (extended, left) ← extendAll additions text
      return (extended, addition :: left)

/-- The text with the needed imports declared, where new lines are inserted at the offset behind the
anchor. -/
def ensure (imports : Settings.Imports) (text : List Char) : Option (List Char) := do
  let (extended, left) ← extendAll (Import.additions imports text) text
  if left.isEmpty then return extended
  else
    match Import.anchor? imports.anchor.toList extended with
    | some anchor =>
      let (front, after) ← split extended (Text.utf8Length (Text.upTo extended anchor.after))
      let lines := left.flatMap fun addition =>
        Import.lineEnd extended ++ Import.importLine anchor.quote anchor.terminated addition
      return front ++ lines ++ after
    | none => return extended

/-- **A brace list is extended by offsets as before.** -/
lemma extend_eq (specifier : List Char) (symbols : List (List Char)) (text : List Char) :
    extend specifier symbols text = some (Import.extend? specifier symbols text) := by
  unfold extend Import.extend?
  cases hnamed : Import.named? specifier text with
  | none => rfl
  | some named =>
    obtain ⟨start, opening, closed, hlist, hafter⟩ := Import.listAt_of_named? hnamed
    obtain ⟨front, rfl⟩ : ∃ front, text = front ++ (named.names ++ named.after) :=
      ⟨start ++ opening, by rw [hafter]; exact hlist.text_eq⟩
    have hfront : split (front ++ (named.names ++ named.after)) (Text.utf8Length front)
        = some (front, named.names ++ named.after) := split_eq_some_iff.mpr ⟨rfl, rfl⟩
    have hopening : At (front ++ (named.names ++ named.after)) (Text.utf8Length front)
        (named.names ++ named.after) := ⟨front, rfl, rfl⟩
    have hclosing : At (front ++ (named.names ++ named.after))
        (Text.utf8Length (front ++ named.names)) named.after :=
      ⟨front ++ named.names, (List.append_assoc _ _ _).symm, rfl⟩
    have hupTo : Text.upTo (front ++ (named.names ++ named.after)) named.after
        = front ++ named.names := by
      rw [← List.append_assoc, Import.upTo_append]
    dsimp only
    rw [Import.upTo_append, hupTo, hopening.cut hclosing, Option.bind_eq_bind, Option.bind_some]
    by_cases hempty : (Import.nameList named.names).isEmpty = true
    · rw [if_pos hempty, if_pos hempty]
      rfl
    · obtain ⟨before, -, -, hbehind⟩ := hclosing.split
      rw [if_neg hempty, if_neg hempty, hfront, hbehind]
      rfl

/-- Extending the lists of names by offsets gives the same text, and leaves the same additions. -/
lemma extendAll_eq (list : List Import.Addition) (text : List Char) :
    extendAll list text
      = some ((Import.extendAll list text).1.text, (Import.extendAll list text).2) := by
  induction list generalizing text with
  | nil => rfl
  | cons addition list ih =>
    unfold extendAll Import.extendAll
    rw [extend_eq, Option.bind_eq_bind, Option.bind_some]
    cases Import.extend? addition.specifier.toList (addition.symbols.map String.toList) text with
    | some extended => exact ih extended
    | none =>
      dsimp only
      rw [ih text]
      rfl

/-- **The imports by offsets** are those of the text. -/
lemma ensure_eq (imports : Settings.Imports) (text : List Char) :
    ensure imports text = some (Import.ensure imports text).text := by
  unfold ensure Import.ensure
  rw [extendAll_eq, Option.bind_eq_bind, Option.bind_some]
  obtain ⟨extended, left⟩ := Import.extendAll (Import.additions imports text) text
  dsimp only
  by_cases hempty : left.isEmpty = true
  · rw [if_pos hempty, if_pos hempty]
    rfl
  rw [if_neg hempty, if_neg hempty]
  cases hanchor : Import.anchor? imports.anchor.toList extended.text with
  | none => rfl
  | some anchor =>
    obtain ⟨front, c, htext, -⟩ := Import.anchor?_divides hanchor
    have hsplit : split extended.text (Text.utf8Length (Text.upTo extended.text anchor.after))
        = some (Text.upTo extended.text anchor.after, anchor.after) := by
      apply split_eq_some_iff.mpr
      have hfront : extended.text = front ++ [c] ++ anchor.after := by
        rw [htext]
        simp
      rw [hfront, Import.upTo_append]
      exact ⟨rfl, rfl⟩
    dsimp only
    rw [hsplit]
    rfl

/-! ## Runs -/

/-- The text that the stages behind the policy end with, by byte offsets. -/
def edit (codemod : Codemod) (route : Route) (policy : Policy) (text : List Char) :
    Option (List Char) := do
  let imported ← ensure codemod.imports text
  if codemod.wrapping.enabled && (Import.missing codemod.imports imported).isEmpty then
    match ← wrap codemod.wrapping route policy imported with
    | .wrapped _ wrapped => return wrapped
    | _ => return imported
  else return imported

/-- The new text that a run on one file ends with, if it changes the file, by byte offsets. -/
def run (codemod : Codemod) (route : Route) (text : List Char) : Option (Option (List Char)) := do
  if (Eligibility.obstacle? codemod.eligibility codemod.wrapping.wrapper route text).isSome then
    return none
  else
    let edited ← edit codemod route (codemod.catalog.resolve route) text
    return if edited = text then none else some edited

/-- The edit by offsets gives the same text. -/
lemma edit_eq (codemod : Codemod) (route : Route) (policy : Policy) (text : List Char) :
    edit codemod route policy text
      = some (codemod.edit route policy text (Import.ensure codemod.imports text)).text := by
  rw [Codemod.edit_text]
  unfold edit Codemod.wrappedText?
  rw [ensure_eq, Option.bind_eq_bind, Option.bind_some]
  generalize (Import.ensure codemod.imports text).text = imported
  by_cases hwraps : (codemod.wrapping.enabled
      && (Import.missing codemod.imports imported).isEmpty) = true
  · rw [if_pos hwraps, if_pos hwraps, wrap_eq]
    cases Query.wrap codemod.wrapping route policy imported <;> rfl
  · rw [if_neg hwraps, if_neg hwraps]
    rfl

/-- The run by offsets gives the same content. -/
lemma run_eq (codemod : Codemod) (route : Route) (text : List Char) :
    run codemod route text = some (codemod.run route text).content := by
  unfold run Codemod.run
  cases Eligibility.obstacle? codemod.eligibility codemod.wrapping.wrapper route text with
  | some obstacle => rfl
  | none =>
    rw [edit_eq]
    rfl

/-- **A run never fails.** For any codemod, route and text, and wherever a quote, a comment, a template
or an interpolation is left open: no byte is read behind the end of the text, no part is cut out of it
inside of a character or in the wrong order, no depth is taken below zero, every round of a loop gets
ahead, and the code of an interpolation is shorter than the code around it. The search for request
input has a value on any piece of code, and the search for queries, the wrapping, the imports and the
whole run come to what they come to by characters. -/
theorem run_by_offsets_never_fails (codemod : Codemod) (route : Route) (policy : Policy)
    (text : List Char) :
    (∀ code, inputFrom ⟨codemod.wrapping.params.toList, route.parameters⟩ code none 0
      = some (Code.requestInput? ⟨codemod.wrapping.params.toList, route.parameters⟩ .plain code)) ∧
    find codemod.wrapping text
      = some ((Query.findAll codemod.wrapping text).map (queryOffsets text)) ∧
    wrap codemod.wrapping route policy text
      = some (attemptOffsets text (Query.wrap codemod.wrapping route policy text)) ∧
    ensure codemod.imports text = some (Import.ensure codemod.imports text).text ∧
    run codemod route text = some (codemod.run route text).content :=
  ⟨inputFrom_eq route.nil_notMem_parameters, find_eq _ text, wrap_eq _ route policy text,
    ensure_eq _ text, run_eq codemod route text⟩

end CachedRoutes.Bytes
