import CachedRoutes.Proofs.Code.Inside
import CachedRoutes.Proofs.Code.Printed
import CachedRoutes.Proofs.Query.ReadOnly
import CachedRoutes.Proofs.Settings.Check

/-!
# Which clients are recognised

A client of the settings is an identifier, and identifiers may have dollar signs. In a text, a client
ends at a word boundary, and for this a dollar sign is no part of a word. Here is what comes of it, for
statements of the plainest form, `const { data } = await client.a('x').b('y')`.

* **One head** (`findAll_of_inert`): whatever the arguments look like, such a statement has one head in
  code, at its start.
* **Reading the client** (`stopsIn_iff`): a client is read where its name stands, unless it ends with a
  dollar sign, and where a longer name goes on next to a dollar sign.
* **Recognised** (`findAll_fetchStatement`): so the query of a statement is found exactly if its client
  does not end with a dollar sign, and no client that is listed in front of it cuts it short.
  `client_missed` has both kinds of clients that are never recognised.
-/

namespace CachedRoutes.Query

open Code (IsName LiteralCall printCalls)

/-! ## The statement -/

/-- A statement that binds `data` to a chain of calls on a client. -/
def fetchStatement (client : String) (calls : List LiteralCall) : List Char :=
  "const \x7b data \x7d = await ".toList ++ (client.toList ++ (printCalls calls ++ ['\n']))

/-- The statement, taken apart at its client and its calls. -/
lemma fetchStatement_eq (client : String) (calls : List LiteralCall) :
    fetchStatement client calls
      = "const \x7b data \x7d = await ".toList ++ (client.toList ++ (printCalls calls ++ ['\n'])) := rfl

/-- The query of such a statement: it starts at the client and ends behind the last call. -/
def fetchQuery (client : String) (calls : List LiteralCall) (shape : Shape) : Query where
  awaitAt := "const \x7b data \x7d = ".toList.length
  exprAt := "const \x7b data \x7d = await ".toList.length
  stop := ("const \x7b data \x7d = await ".toList ++ (client.toList ++ printCalls calls)).length
  client := client
  shape := shape

/-- The head at the start of a text that binds `data`. -/
lemma head?_fetch (clients : List (List Char)) (rest : List Char) :
    head? clients none 0 ("const \x7b data \x7d = await".toList ++ rest)
      = (client? clients rest).map fun found =>
        ⟨0, " data ".toList, 17, 22 + found.1, found.2⟩ := by
  have hdeclared : afterDeclarator? ("const \x7b data \x7d = await".toList ++ rest)
      = some (" \x7b data \x7d = await".toList ++ rest) := rfl
  have hbraced : braced? (" \x7b data \x7d = await".toList ++ rest)
      = some (" data ".toList, " = await".toList ++ rest) := rfl
  have hawaited : afterEquals? (" = await".toList ++ rest) = some ("await".toList ++ rest) := rfl
  have hfetched : Text.after? "await".toList ("await".toList ++ rest) = some rest :=
    Text.after?_append _ _
  unfold head?
  rw [hdeclared]
  simp only [Option.bind_eq_bind, Option.bind_some, hbraced, hawaited, hfetched]
  have hguard : (guard (Text.isBoundary none
      ("const \x7b data \x7d = await".toList ++ rest).head? = true) : Option Unit) = some () := rfl
  rw [hguard, Option.bind_some]
  cases client? clients rest with
  | none => rfl
  | some found =>
    have hawaitAt : ("const \x7b data \x7d = await".toList ++ rest).length
        - ("await".toList ++ rest).length = 17 := by
      rw [List.length_append, List.length_append, Nat.add_sub_add_right]
      rfl
    have hclientAt : ("const \x7b data \x7d = await".toList ++ rest).length - rest.length = 22 := by
      rw [List.length_append, Nat.add_sub_cancel]
      rfl
    simp only [Option.bind_some, Option.map_some, hawaitAt, hclientAt, Nat.zero_add]
    rfl

/-! ## Reading the client -/

/-- Does a client end at a word boundary at the start of the text? -/
def stopsIn (client text : List Char) : Bool :=
  client.isPrefixOf text && Text.isBoundary client.getLast? (text.drop client.length).head?

/-- Behind a single blank, the first client that stops there is read. -/
lemma client?_space {clients : List (List Char)} (hclients : ∀ client ∈ clients, client ≠ [])
    {text : List Char} (htext : ∀ c ∈ text.head?, Text.isBlank c = false) :
    client? clients (' ' :: text) = (clients.find? (stopsIn · text)).map fun client => (1, client) := by
  have hblanks : ([' '] ++ text).takeWhile Text.isBlank = [' '] :=
    takeWhile_run (by simp [Text.isBlank]) htext
  rw [List.singleton_append] at hblanks
  unfold client?
  rw [hblanks]
  change [0].findSome? _ = _
  rw [List.findSome?_singleton]
  unfold clientAfter?
  induction clients with
  | nil => rfl
  | cons first others ih =>
    have hlast : ([' '] ++ first).getLast? = first.getLast? :=
      List.getLast?_append_of_ne_nil _ (hclients first (by simp))
    have hdrop : (' ' :: text).drop (0 + 1 + first.length) = text.drop first.length := by
      rw [Nat.add_comm, List.drop_succ_cons]
    have hstops : (first.isPrefixOf ((' ' :: text).drop (0 + 1))
        && Text.isBoundary ((' ' :: text).take (0 + 1) ++ first).getLast?
          ((' ' :: text).drop (0 + 1 + first.length)).head?) = stopsIn first text := by
      rw [stopsIn, hdrop, ← hlast]
      rfl
    rw [List.findSome?_cons, List.find?_cons, hstops,
      ih fun client hmem => hclients client (List.mem_cons_of_mem _ hmem)]
    cases stopsIn first text <;> rfl

/-- Of two characters of names, a word boundary lies next to a dollar sign. -/
lemma isWord_of_isNameChar {c : Char} (h : Code.isNameChar c = true) :
    Text.isWord c = (c != '$') := by
  have hsmall : c.toNat < 128 := by
    have hn := Code.toNat_of_isNameChar h
    omega
  by_cases hdollar : c = '$'
  · rw [hdollar]
    rfl
  · have hword : (c.isAlphanum || c == '_') = true := by simpa [Code.isNameChar, hdollar] using h
    simp only [Text.isWord, if_pos hsmall, hword]
    simpa using hdollar

/-- A beginning of a name that ends next to a dollar sign: behind it or in front of it. -/
def cutsShort (other name : List Char) : Bool :=
  other.isPrefixOf name &&
    match other.getLast?, (name.drop other.length).head? with
    | some c, some d => (c == '$') != (d == '$')
    | _, _ => false

/-- **Where a client is read:** at its own name, unless this ends with a dollar sign, and where it cuts
a longer name short. -/
lemma stopsIn_iff {other name : List Char} (hother : IsName other) (hname : IsName name)
    (more : List Char) :
    stopsIn other (name ++ '.' :: more) = true ↔
      (other = name ∧ name.getLast? ≠ some '$') ∨ cutsShort other name = true := by
  have hprefix : other <+: name ++ '.' :: more ↔ other <+: name := by
    refine ⟨fun h => Text.prefix_of_not_mem h (hother.not_mem rfl), fun h => ?_⟩
    exact h.trans (List.prefix_append _ _)
  rw [stopsIn, cutsShort, Bool.and_eq_true, Bool.and_eq_true, List.isPrefixOf_iff_prefix,
    List.isPrefixOf_iff_prefix, hprefix]
  obtain ⟨front, c, hsplit⟩ := (List.eq_nil_or_concat other).resolve_left hother.ne_nil
  have hlast : other.getLast? = some c := by simp [hsplit]
  have hc : Code.isNameChar c = true := hother.chars c (by simp [hsplit])
  by_cases hstart : other <+: name
  · obtain ⟨rest, rfl⟩ := hstart
    rw [List.append_assoc, List.drop_left, List.drop_left, hlast]
    cases rest with
    | nil =>
      -- the name ends here, and a dot follows it
      have hboundary : Text.isBoundary (some c) (some '.') = (c != '$') := by
        rw [← isWord_of_isNameChar hc]
        change (Text.isWord c != false) = _
        simp
      simp [hboundary, hlast]
    | cons d rest =>
      have hd : Code.isNameChar d = true := hname.chars d (by simp)
      have hboundary : Text.isBoundary (some c) (some d) = ((c == '$') != (d == '$')) := by
        rw [Text.isBoundary, Option.any_some, Option.any_some, isWord_of_isNameChar hc,
          isWord_of_isNameChar hd]
        cases hdollar : c == '$' <;> simp [bne, hdollar]
      simp [hboundary]
  · have hne : other ≠ name := by
      rintro rfl
      exact hstart (List.prefix_refl _)
    simp [hstart, hne]

/-! ## Heads in quoted texts -/

/-- A text in which all heads but a first one are inert has the query of that one, if it is
accepted. -/
lemma findAll_of_inert {wrapping : Settings.Wrapping} {text : List Char} (htext : text ≠ [])
    (h : ∀ head ∈ heads (wrapping.clients.map String.toList) text, 0 < head.start →
      judge text (Code.spans text) head = .inert) :
    findAll wrapping text
      = ((head? (wrapping.clients.map String.toList) none 0 text).bind fun head =>
          (judge text (Code.spans text) head).query?).toList := by
  have hlater : ∀ before start rest, 0 < start →
      (∀ head ∈ headsFrom (wrapping.clients.map String.toList) before start rest,
        head ∈ heads (wrapping.clients.map String.toList) text) →
      (headsFrom (wrapping.clients.map String.toList) before start rest).filterMap
        (fun head => (judge text (Code.spans text) head).query?) = [] := by
    intro before start rest hstart hsub
    rw [List.filterMap_eq_nil_iff]
    intro head hmem
    have hle := (headsFrom_pairwise _ before start rest).1 head hmem
    rw [h head (hsub head hmem) (Nat.lt_of_lt_of_le hstart hle)]
    rfl
  unfold findAll candidates
  rw [List.filterMap_map]
  change (heads _ _).filterMap (fun head => (judge text (Code.spans text) head).query?) = _
  clear h
  obtain ⟨c, rest, rfl⟩ := List.exists_cons_of_ne_nil htext
  unfold heads at hlater ⊢
  rw [headsFrom] at hlater ⊢
  cases hhead : head? (wrapping.clients.map String.toList) none 0 (c :: rest) with
  | none =>
    rw [hhead] at hlater
    exact hlater _ _ _ (by simp) fun _ hmem => hmem
  | some head =>
    rw [hhead] at hlater
    dsimp only at hlater ⊢
    rw [List.filterMap_cons, hlater _ _ _ (by simp) fun _ hmem => List.mem_cons_of_mem _ hmem,
      Option.bind_some]
    cases (judge (c :: rest) (Code.spans (c :: rest)) head).query? <;> rfl

section Statement

variable {client : String} {calls : List LiteralCall} (hclient : IsName client.toList)
  (hcalls : ∀ call ∈ calls, call.IsPrintable)
include hclient hcalls

/-- The statement behind its first brace is woven. -/
lemma woven_fetch :
    ∃ woven, fetchStatement client calls = "const \x7b".toList ++ woven ∧ Code.Woven woven := by
  refine ⟨" data \x7d = await ".toList ++ (client.toList ++ (printCalls calls ++ ['\n'])), ?_, ?_⟩
  · have hlead : "const \x7b data \x7d = await ".toList
        = "const \x7b".toList ++ " data \x7d = await ".toList := rfl
    rw [fetchStatement_eq, hlead, List.append_assoc]
  · apply Code.Woven.append
    · have hcode : (" data \x7d = await ".toList.all fun c => !Code.isInertMark c && c != '\x7b') = true :=
        rfl
      intro c hc
      simpa using List.all_eq_true.mp hcode c hc
    · apply Code.Woven.append_name hclient
      apply Code.Woven.append_calls hcalls
      exact .code rfl (by simp) .nil

/-- All spans of the statement lie behind its first brace. -/
lemma spans_fetch :
    ∃ woven, fetchStatement client calls = "const \x7b".toList ++ woven ∧ Code.Woven woven ∧
      Code.spans (fetchStatement client calls) = Code.spansFrom 7 woven := by
  obtain ⟨woven, htext, hwoven⟩ := woven_fetch hclient hcalls
  refine ⟨woven, htext, hwoven, ?_⟩
  have hcode : ("const \x7b".toList.all fun c => !Code.isInertMark c) = true := rfl
  rw [Code.spans, htext, Code.spansFrom_append_code (by simpa using List.all_eq_true.mp hcode)]
  rfl

/-- **Heads that look like others are inert:** they stand in an argument. -/
lemma judge_fetch_inert {clients : List (List Char)} {head : Head}
    (hhead : head ∈ heads clients (fetchStatement client calls)) (hstart : 0 < head.start) :
    judge (fetchStatement client calls) (Code.spans (fetchStatement client calls)) head
      = .inert := by
  obtain ⟨woven, htext, hwoven, hspans⟩ := spans_fetch hclient hcalls
  obtain ⟨skipped, rest, before, hcut, hhead⟩ := mem_headsFrom hhead
  obtain ⟨keyword, gap, tail, rfl, hkeyword, hgap⟩ := head?_declares hhead
  have hposition : head.start = skipped.length := by
    rw [(head?_order hhead).1, Nat.zero_add]
  have hrun : '\x27' ∉ keyword ++ gap := by
    intro hmem
    rcases List.mem_append.mp hmem with hmem | hmem
    · rcases hkeyword with rfl | rfl <;> simp at hmem
    · exact absurd (hgap _ hmem) (by simp [Text.isBlank])
  have hcovered : ∃ span ∈ Code.spans (fetchStatement client calls),
      span.covers head.start = true := by
    rw [htext, ← List.append_assoc keyword] at hcut
    rw [hspans, hposition]
    rcases List.append_eq_append_iff.mp hcut with ⟨behind, rfl, hwhole⟩ | ⟨front, hfront, hwhole⟩
    · have hlength : ("const \x7b".toList ++ behind).length = 7 + behind.length := by
        rw [List.length_append]
        rfl
      rw [hlength]
      exact hwoven.covered 7 hrun hwhole
    · -- the keyword would start among the other characters of the first one
      exfalso
      cases front with
      | nil => exact hwoven.ne_brace hrun tail hwhole.symm
      | cons c front =>
        obtain ⟨first, skipped, rfl⟩ := List.exists_cons_of_length_pos (hposition ▸ hstart)
        have hmem : c ∈ "onst \x7b".toList := by
          have htail : "onst \x7b".toList = skipped ++ c :: front := (List.cons.inj hfront).2
          rw [htail]
          simp
        rcases hkeyword with rfl | rfl
        · have hc : 'c' = c := (List.cons.inj hwhole).1
          simp [← hc] at hmem
        · have hc : 'l' = c := (List.cons.inj hwhole).1
          simp [← hc] at hmem
  unfold judge
  rw [if_pos (List.any_eq_true.mpr hcovered)]

/-- The start of the statement is code, and `data` is bound there. -/
lemma judge_fetch (other : List Char) :
    judge (fetchStatement client calls) (Code.spans (fetchStatement client calls))
        ⟨0, " data ".toList, 17, 23, other⟩
      = match Code.chain? ((client.toList ++ (printCalls calls ++ ['\n'])).drop other.length) with
        | none => .noChain
        | some (methods, rest) =>
          match shape? (String.ofList other) methods with
          | none => .unknownShape methods
          | some shape =>
            if Code.endsStatement rest then
              .accepted ⟨17, 23, (fetchStatement client calls).length - rest.length,
                String.ofList other, shape⟩
            else .continues methods := by
  obtain ⟨woven, -, -, hspans⟩ := spans_fetch hclient hcalls
  have hcode : ((Code.spans (fetchStatement client calls)).any fun span => span.covers 0) = false := by
    rw [List.any_eq_false]
    intro span hmem
    rw [hspans] at hmem
    have hstart := Code.le_start_of_mem_spansFrom hmem
    rw [Code.Span.covers_iff]
    omega
  have hdata : Text.hasWord "data".toList none " data ".toList = true := rfl
  have hdrop : (fetchStatement client calls).drop (23 + other.length)
      = (client.toList ++ (printCalls calls ++ ['\n'])).drop other.length := by
    have hlead : "const \x7b data \x7d = await ".toList.length = 23 := rfl
    rw [← hlead, fetchStatement_eq, List.drop_length_add_append]
  unfold judge Head.stop
  dsimp only
  rw [hcode, hdata, hdrop]
  rfl

/-- A client that is cut short has no calls behind it. -/
lemma judge_fetch_cut {other : List Char} (hcut : cutsShort other client.toList = true) :
    judge (fetchStatement client calls) (Code.spans (fetchStatement client calls))
        ⟨0, " data ".toList, 17, 23, other⟩ = .noChain := by
  rw [cutsShort, Bool.and_eq_true, List.isPrefixOf_iff_prefix] at hcut
  obtain ⟨⟨tail, htail⟩, hseam⟩ := hcut
  rw [← htail, List.drop_left] at hseam
  rw [judge_fetch hclient hcalls, ← htail, List.append_assoc, List.drop_left]
  cases tail with
  | nil => cases hlast : other.getLast? <;> simp [hlast] at hseam
  | cons d tail =>
    have hd : Code.isNameChar d = true := hclient.chars d (by simp [← htail])
    have hstop : (Code.skipTrivia (d :: (tail ++ (printCalls calls ++ ['\n'])))).head? ≠ some '.' := by
      rw [Code.skipTrivia_cons (Code.isSpace_of_isNameChar hd)]
      · rw [List.head?_cons, ne_eq, Option.some.injEq]
        rintro rfl
        simp [Code.isNameChar] at hd
      · rintro rfl
        simp [Code.isNameChar] at hd
    have hchain : Code.chain? (d :: tail ++ (printCalls calls ++ ['\n'])) = none := by
      rw [Code.chain?, List.cons_append]
      have hnone : Code.calls? (printCalls [] ++ d :: (tail ++ (printCalls calls ++ ['\n'])))
          = some ([], d :: (tail ++ (printCalls calls ++ ['\n']))) :=
        Code.calls?_printCalls (by simp) hstop
      rw [printCalls, List.flatMap_nil, List.nil_append] at hnone
      rw [hnone]
    rw [hchain]

/-- The calls on a client are read back, and make the query. -/
lemma judge_fetch_own {shape : Shape}
    (hshape : shape? client (calls.map LiteralCall.method) = some shape) :
    judge (fetchStatement client calls) (Code.spans (fetchStatement client calls))
        ⟨0, " data ".toList, 17, 23, client.toList⟩ = .accepted (fetchQuery client calls shape) := by
  have hchain : Code.chain? (printCalls calls ++ ['\n'])
      = some (calls.map LiteralCall.method, ['\n']) := by
    have hend : (Code.skipTrivia ['\n']).head? ≠ some '.' := by
      rw [Code.skipTrivia_space rfl]
      simp [Code.skipTrivia]
    rw [Code.chain?, Code.calls?_printCalls hcalls hend]
    cases calls with
    | nil => simp [shape?] at hshape
    | cons first others => rfl
  rw [judge_fetch hclient hcalls, List.drop_left, hchain]
  dsimp only
  rw [String.ofList_toList, hshape]
  dsimp only
  have hstop : (fetchStatement client calls).length - ['\n'].length
      = ("const \x7b data \x7d = await ".toList ++ (client.toList ++ printCalls calls)).length := by
    rw [fetchStatement_eq, ← List.append_assoc client.toList, ← List.append_assoc, List.length_append,
      Nat.add_sub_cancel]
  rw [if_pos (show Code.endsStatement ['\n'] = true from rfl), hstop]
  rfl

end Statement

/-! ## Recognised clients -/

/-- A client that does not end with a dollar sign, and that no client in front of it in the list cuts
short. -/
def IsRecognised (clients : List String) (client : String) : Prop :=
  client.toList.getLast? ≠ some '$' ∧
    ∀ other ∈ clients.takeWhile (· != client), cutsShort other.toList client.toList = false

instance (clients : List String) (client : String) : Decidable (IsRecognised clients client) :=
  inferInstanceAs (Decidable (_ ∧ _))

/-- The first client that stops in a name is the name itself exactly if it is recognised. -/
lemma find?_stopsIn_iff {clients : List String} (hnames : ∀ other ∈ clients, IsName other.toList)
    {client : String} (hmem : client ∈ clients) (more : List Char) :
    clients.find? (fun other => stopsIn other.toList (client.toList ++ '.' :: more)) = some client ↔
      IsRecognised clients client := by
  have hwhole : cutsShort client.toList client.toList = false := by
    simp only [cutsShort, List.drop_length, List.head?_nil]
    cases client.toList.getLast? <;> simp
  rw [find?_eq_some_iff_takeWhile hmem, stopsIn_iff (hnames client hmem) (hnames client hmem), hwhole]
  unfold IsRecognised
  apply and_congr
  · simp
  · apply forall₂_congr
    intro other hother
    have hne : other.toList ≠ client.toList := by
      intro heq
      have hkept := List.mem_takeWhile_imp hother
      simp [String.toList_inj.mp heq] at hkept
    have hname := hnames other ((List.takeWhile_sublist _).subset hother)
    rw [Bool.eq_false_iff, Bool.eq_false_iff, ne_eq, stopsIn_iff hname (hnames client hmem)]
    simp [hne]

/-- Methods of chains that have a shape are names. -/
lemma isName_of_mem_readMethods {method : String} (h : method ∈ readMethods) :
    IsName method.toList := by
  have hall : readMethods.all Settings.isIdentifier = true := rfl
  exact Code.isName_of_isIdentifier (List.all_eq_true.mp hall method h)

/-- The calls of a query with a shape can be printed. -/
lemma isPrintable_of_shape {client : String} {calls : List LiteralCall} {shape : Shape}
    (hshape : shape? client (calls.map LiteralCall.method) = some shape)
    (harguments : ∀ call ∈ calls, ∀ argument ∈ call.arguments, Code.QuotedBody '\x27' argument)
    {call : LiteralCall} (hmem : call ∈ calls) : call.IsPrintable where
  method := by
    apply isName_of_mem_readMethods
    exact (shape?_eq_some_iff.mp hshape).1.read _ (List.mem_map_of_mem hmem)
  arguments := harguments call hmem

/-- The queries of the statement come from the first client that stops in its own. -/
lemma findAll_fetch {wrapping : Settings.Wrapping}
    (hnames : ∀ other ∈ wrapping.clients, IsName other.toList) {client : String}
    (hclient : IsName client.toList) {calls : List LiteralCall}
    (hcalls : ∀ call ∈ calls, call.IsPrintable) :
    findAll wrapping (fetchStatement client calls)
      = ((wrapping.clients.find? fun other =>
          stopsIn other.toList (client.toList ++ (printCalls calls ++ ['\n']))).bind fun other =>
            (judge (fetchStatement client calls) (Code.spans (fetchStatement client calls))
              ⟨0, " data ".toList, 17, 23, other.toList⟩).query?).toList := by
  have hne : fetchStatement client calls ≠ [] := by
    rw [fetchStatement_eq]
    exact List.append_ne_nil_of_left_ne_nil (by decide) _
  have hsplit : fetchStatement client calls = "const \x7b data \x7d = await".toList
      ++ ' ' :: (client.toList ++ (printCalls calls ++ ['\n'])) := by
    have hlead : "const \x7b data \x7d = await ".toList
        = "const \x7b data \x7d = await".toList ++ [' '] := rfl
    rw [fetchStatement_eq, hlead, List.append_assoc, List.singleton_append]
  have hnonempty : ∀ other ∈ wrapping.clients.map String.toList, other ≠ [] := by
    intro other hother
    obtain ⟨name, hname, rfl⟩ := List.mem_map.mp hother
    exact (hnames name hname).ne_nil
  have hcode : ∀ c ∈ (client.toList ++ (printCalls calls ++ ['\n'])).head?,
      Text.isBlank c = false := by
    obtain ⟨c, name, hcons⟩ := List.exists_cons_of_ne_nil hclient.ne_nil
    rw [hcons, List.cons_append, List.head?_cons]
    intro d hd
    obtain rfl := Option.some.inj hd
    rw [Bool.eq_false_iff]
    intro hblank
    have hc := hclient.chars c (by simp [hcons])
    rw [Code.isNameChar_of_isBlank hblank] at hc
    exact Bool.noConfusion hc
  have hhead : head? (wrapping.clients.map String.toList) none 0 (fetchStatement client calls)
      = (wrapping.clients.find? fun other =>
          stopsIn other.toList (client.toList ++ (printCalls calls ++ ['\n']))).map fun other =>
            ⟨0, " data ".toList, 17, 23, other.toList⟩ := by
    rw [hsplit, head?_fetch, client?_space hnonempty hcode, List.find?_map, Option.map_map,
      Option.map_map]
    rfl
  rw [findAll_of_inert hne fun head hhead hstart => judge_fetch_inert hclient hcalls hhead hstart,
    hhead, Option.bind_map]
  rfl

/-- **Which clients are recognised:** checked settings list identifiers as clients. In a statement that
binds `data` to calls on such a client, with any texts as arguments, the query is found exactly if the
client is recognised, and nothing is found otherwise. -/
theorem findAll_fetchStatement {settings : Settings} (h : settings.violation? = none)
    {client : String} (hclient : client ∈ settings.wrap.clients) {calls : List LiteralCall}
    {shape : Shape} (hshape : shape? client (calls.map LiteralCall.method) = some shape)
    (harguments : ∀ call ∈ calls, ∀ argument ∈ call.arguments, Code.QuotedBody '\x27' argument) :
    findAll settings.wrap (fetchStatement client calls)
      = if IsRecognised settings.wrap.clients client then [fetchQuery client calls shape] else [] := by
  have hnames : ∀ other ∈ settings.wrap.clients, IsName other.toList := by
    intro other hother
    have hwrap := Settings.Wrapping.violation?_eq_none_iff.mp (Settings.violation?_eq_none h).1
    exact Code.isName_of_isIdentifier (hwrap.2.2.2 other hother)
  have hcalls : ∀ call ∈ calls, call.IsPrintable := fun call hmem =>
    isPrintable_of_shape hshape harguments hmem
  have hdot : ∃ more, printCalls calls ++ ['\n'] = '.' :: more := by
    cases calls with
    | nil => simp [shape?] at hshape
    | cons first others => exact ⟨_, rfl⟩
  obtain ⟨more, hmore⟩ := hdot
  have hrecognised := find?_stopsIn_iff hnames hclient more
  rw [findAll_fetch hnames (hnames client hclient) hcalls, hmore]
  cases hfind : settings.wrap.clients.find?
      fun other => stopsIn other.toList (client.toList ++ '.' :: more) with
  | none =>
    rw [hfind] at hrecognised
    rw [if_neg (by simpa using hrecognised)]
    rfl
  | some other =>
    rw [hfind, Option.some.injEq] at hrecognised
    rw [Option.bind_some]
    by_cases hsame : other = client
    · rw [if_pos (hrecognised.mp hsame), hsame, judge_fetch_own (hnames client hclient) hcalls hshape]
      rfl
    · have hother := hnames other (List.mem_of_find?_eq_some hfind)
      have hstops := List.find?_some hfind
      rw [stopsIn_iff hother (hnames client hclient)] at hstops
      have hcut := hstops.resolve_left fun hwhole => hsame (String.toList_inj.mp hwhole.1)
      rw [if_neg fun hclear => hsame (hrecognised.mpr hclear),
        judge_fetch_cut (hnames client hclient) hcalls hcut]
      rfl

/-- Calls with arguments that look like a comment, like a call and like a statement of its own. -/
def decoyCalls : List LiteralCall :=
  [⟨"from", ["users // all".toList]⟩,
    ⟨"eq", ["name)".toList, "const \x7b data \x7d = await my.from(\"logs\")".toList]⟩,
    ⟨"limit", ["1".toList]⟩]

/-- A client with a dollar sign is recognised in front of a client that would cut it short. -/
theorem findAll_fetchStatement_dollar :
    let settings : Settings := { wrap := { clients := ["my$db", "my"] } }
    settings.violation? = none ∧ "my$db" ∈ settings.wrap.clients ∧
      shape? "my$db" (decoyCalls.map LiteralCall.method) = some .orderedList ∧
      findAll settings.wrap (fetchStatement "my$db" decoyCalls)
        = [fetchQuery "my$db" decoyCalls .orderedList] := by
  intro settings
  have hviolation : settings.violation? = none :=
    Settings.violation?_clients (List.cons_ne_nil _ _) (by decide)
  have hlisted : "my$db" ∈ settings.wrap.clients := List.mem_cons_self
  have hshape : shape? "my$db" (decoyCalls.map LiteralCall.method) = some .orderedList := rfl
  have hrecognised : IsRecognised settings.wrap.clients "my$db" := by decide
  have harguments : ∀ call ∈ decoyCalls, ∀ argument ∈ call.arguments,
      Code.QuotedBody '\x27' argument := by
    have hplain : (decoyCalls.all fun call => call.arguments.all fun argument =>
        argument.all fun c => c != '\x27' && c != '\\' && c != '\n') = true := rfl
    intro call hcall argument hargument
    apply Code.quotedBody_of_plain
    exact List.all_eq_true.mp (List.all_eq_true.mp hplain call hcall) argument hargument
  have hfound := findAll_fetchStatement hviolation hlisted hshape harguments
  rw [if_pos hrecognised] at hfound
  exact ⟨hviolation, hlisted, hshape, hfound⟩

/-- **Clients that are never recognised:** one that ends with a dollar sign, and one that a client in
front of it cuts short. Both can be listed in checked settings. -/
theorem client_missed :
    let ending : Settings := { wrap := { clients := ["db$"] } }
    let inside : Settings := { wrap := { clients := ["my", "my$db"] } }
    let calls : List LiteralCall := [⟨"from", ["users".toList]⟩, ⟨"select", ["*".toList]⟩]
    ending.violation? = none ∧ "db$" ∈ ending.wrap.clients ∧
      shape? "db$" (calls.map LiteralCall.method) = some .select ∧
      findAll ending.wrap (fetchStatement "db$" calls) = [] ∧
    inside.violation? = none ∧ "my$db" ∈ inside.wrap.clients ∧
      shape? "my$db" (calls.map LiteralCall.method) = some .select ∧
      findAll inside.wrap (fetchStatement "my$db" calls) = [] := by
  intro ending inside calls
  have hending : fetchStatement "db$" calls
      = "const \x7b data \x7d = await db$.from('users').select('*')\n".toList := by decide +kernel
  have hinside : fetchStatement "my$db" calls
      = "const \x7b data \x7d = await my$db.from('users').select('*')\n".toList := by decide +kernel
  refine ⟨Settings.violation?_clients (List.cons_ne_nil _ _) (by decide), List.mem_cons_self, rfl,
    ?_, Settings.violation?_clients (List.cons_ne_nil _ _) (by decide),
    List.mem_cons_of_mem _ List.mem_cons_self, rfl, ?_⟩
  · rw [hending, String.toList_ofList]
    decide +kernel
  · rw [hinside, String.toList_ofList]
    decide +kernel

end CachedRoutes.Query
