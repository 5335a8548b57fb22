import CachedRoutes.Proofs.Bytes.Run
import CachedRoutes.Proofs.Code.Matching

/-!
# What the scanners find, exactly

Chains, spans and matching parentheses, each against a description that says what is there and not how
it is found. The descriptions hold for positions in a text and for offsets into its bytes, and those
of spans and parentheses for any bytes.

* **Chains** (`chain_accepts_exactly`): an offset from which a chain is found is the place of a
  character (`chain_eq_some_iff`). From inside of a character, or behind the end, there is none
  (`chain_of_high`).
* **Parentheses** (`matching_paren_agrees_with_spans`): the match is where the code is in balance.
* **Spans** (`spans_are_the_segmentation`): there is no other way to cut a text, or any bytes.
-/

namespace CachedRoutes.Bytes

/-! ## Chains -/

section Chains

variable {text : List Char} {i : Nat}

/-- An offset behind a place is a place, or no byte of ASCII stands there. -/
lemma At.place_or_high {rest : List Char} {j : Nat} (h : At text j rest) (hj : j ≤ i) :
    (∃ rest', At text i rest') ∨ ∀ d, read (encode text) i = some d → isAscii d = false := by
  induction rest generalizing j with
  | nil =>
    rcases Nat.lt_or_eq_of_le hj with hlt | rfl
    · refine .inr fun d hd => ?_
      have hin := lt_of_read hd
      have hend := h.length_eq
      omega
    · exact .inl ⟨[], h⟩
  | cons c rest ih =>
    rcases Nat.lt_or_ge i (j + c.utf8Size) with hlt | hge
    · obtain ⟨k, rfl⟩ := Nat.exists_eq_add_of_le hj
      cases hc : isAscii c with
      | true =>
        have hsize := utf8Size_of_isAscii hc
        obtain rfl : k = 0 := by omega
        exact .inl ⟨c :: rest, h⟩
      | false =>
        obtain ⟨d, hread, hhigh⟩ := h.read_high hc (Nat.lt_of_add_lt_add_left hlt)
        refine .inr fun d' hd' => ?_
        rw [hread] at hd'
        rwa [← Option.some.inj hd']
    · exact ih h.next hge

/-- Where no byte of ASCII stands, nothing is skipped. -/
lemma skipTrivia_of_high (h : ∀ d, read (encode text) i = some d → isAscii d = false) :
    skipTrivia (encode text) i = some i := by
  have hno : ∀ x y, isAscii x = true →
      ¬ (read (encode text) i = some x ∧ read (encode text) (i + 1) = some y) := by
    rintro x y hx ⟨hread, -⟩
    rw [h x hread] at hx
    exact Bool.noConfusion hx
  have hblanks : skipWhile Code.isSpace (encode text) i = some i := by
    rcases Nat.lt_or_ge i (encode text).length with hlt | hge
    · obtain ⟨d, hd⟩ := exists_read hlt
      rw [skipWhile_of_read hd, eq_false_of_ascii (fun _ => isAscii_of_isSpace) (h d hd)]
      rfl
    · exact skipWhile_of_le hge
  rw [skipTrivia_of_skipWhile hblanks, if_neg (hno _ _ (by decide)), if_neg (hno _ _ (by decide))]

/-- **No chain starts inside of a character,** or behind the end. -/
lemma chain_of_high (h : ∀ d, read (encode text) i = some d → isAscii d = false) :
    chain text i = some none := by
  have hdot : read (encode text) i ≠ some '.' := by
    intro hread
    exact absurd (h _ hread) (by decide)
  have hcalls : calls text [] i = some (some ([], i)) := by
    rw [calls, skipTrivia_of_high h, Option.bind_eq_bind, Option.bind_some, if_neg hdot]
    rfl
  rw [chain, hcalls]
  rfl

/-- The scanner of chains has a value at every offset. -/
lemma exists_chain_value (text : List Char) (i : Nat) : ∃ found, chain text i = some found := by
  rcases (At.start text).place_or_high (Nat.zero_le i) with ⟨rest, hat⟩ | hhigh
  · obtain ⟨found, hfound, -⟩ := chain_at hat
    exact ⟨found, hfound⟩
  · exact ⟨none, chain_of_high hhigh⟩

/-- From a place, a chain is found exactly if the scanner on lists finds it in the rest, up to the
place of what it leaves over. -/
lemma chain_at_iff {rest : List Char} {names : List String} {stop : Nat} (h : At text i rest) :
    chain text i = some (some (names, stop)) ↔
      ∃ after, Code.chain? rest = some (names, after) ∧ At text stop after := by
  obtain ⟨found, hfound, hrel⟩ := chain_at h
  rw [hfound, Option.some.injEq]
  generalize Code.chain? rest = listed at hrel
  cases hrel with
  | none => simp
  | some hboth =>
    rename_i found listed
    obtain ⟨written, place⟩ := found
    obtain ⟨listedNames, after⟩ := listed
    obtain ⟨rfl, hat⟩ : written = listedNames ∧ At text place after := hboth
    constructor
    · intro heq
      obtain ⟨rfl, rfl⟩ := Prod.mk.inj (Option.some.inj heq)
      exact ⟨after, rfl, hat⟩
    · rintro ⟨after', heq, hat'⟩
      obtain ⟨rfl, rfl⟩ := Prod.mk.inj (Option.some.inj heq)
      rw [(hat.eq_iff hat').mpr rfl]

/-- **A chain is found from the offset of its position,** up to the offset of its end. -/
lemma chain_eq_some_iff {names : List String} {stop : Nat} :
    chain text i = some (some (names, stop)) ↔
      ∃ m n, i = Text.byteOffset text m ∧ stop = Text.byteOffset text n ∧
        Code.ChainAt text m n names := by
  constructor
  · intro h
    rcases (At.start text).place_or_high (Nat.zero_le i) with ⟨rest, hat⟩ | hhigh
    · obtain ⟨after, hchain, hafter⟩ := (chain_at_iff hat).mp h
      obtain ⟨front, htext, hi⟩ := hat
      obtain ⟨before, hbefore, hstop⟩ := hafter
      refine ⟨front.length, before.length, ?_, ?_, ?_⟩
      · rw [Text.byteOffset, htext, List.take_left, hi]
      · rw [Text.byteOffset, hbefore, List.take_left, hstop]
      · have hdrop : text.drop front.length = rest := by rw [htext, List.drop_left]
        have hlength : text.length - after.length = before.length := by
          rw [hbefore, List.length_append, Nat.add_sub_cancel]
        rw [← Code.chainFrom?_eq_some_iff, Code.chainFrom?, hdrop, hchain, Option.map_some, hlength]
    · rw [chain_of_high hhigh] at h
      simp at h
  · rintro ⟨m, n, rfl, rfl, hchain⟩
    exact (chain_at_iff (at_byteOffset text m)).mpr
      ⟨text.drop n, hchain.chain?_drop, at_byteOffset text n⟩

end Chains

/-- **The scanner of chains accepts its grammar and nothing else.** From a position of a text it finds
the names and the end of a chain exactly if these are a chain there, and nothing if there is none.
Only one end and one list of names can be a chain. By byte offsets the scanner always has a value, and
finds the offsets of these positions. -/
theorem chain_accepts_exactly (text : List Char) :
    (∀ start names stop, Code.chainFrom? text start = some (names, stop) ↔
      Code.ChainAt text start stop names) ∧
    (∀ start, Code.chainFrom? text start = none ↔
      ¬ ∃ names stop, Code.ChainAt text start stop names) ∧
    (∀ start names stop names' stop', Code.ChainAt text start stop names →
      Code.ChainAt text start stop' names' → names = names' ∧ stop = stop') ∧
    ∀ i, (∃ found, chain text i = some found) ∧
      ∀ names stop, chain text i = some (some (names, stop)) ↔
        ∃ m n, i = Text.byteOffset text m ∧ stop = Text.byteOffset text n ∧
          Code.ChainAt text m n names := by
  refine ⟨fun _ _ _ => Code.chainFrom?_eq_some_iff, fun start => ?_, ?_, fun i =>
    ⟨exists_chain_value text i, fun _ _ => chain_eq_some_iff⟩⟩
  · rw [Option.eq_none_iff_forall_ne_some]
    constructor
    · rintro hnone ⟨names, stop, hchain⟩
      exact hnone _ (Code.chainFrom?_eq_some_iff.mpr hchain)
    · rintro hno ⟨names, stop⟩ hfound
      exact hno ⟨names, stop, Code.chainFrom?_eq_some_iff.mp hfound⟩
  · intro start names stop names' stop' h h'
    have hfound := Code.chainFrom?_eq_some_iff.mpr h
    rw [Code.chainFrom?_eq_some_iff.mpr h'] at hfound
    obtain ⟨rfl, rfl⟩ := Prod.mk.inj (Option.some.inj hfound)
    exact ⟨rfl, rfl⟩

/-! ## Parentheses -/

section Parentheses

variable {text : List Char} {opening : Nat}

/-- The text from a parenthesis on. -/
lemma drop_eq_paren (hopen : text[opening]? = some '(') :
    text.drop opening = '(' :: text.drop (opening + 1) := by
  obtain ⟨hlt, hparen⟩ := List.getElem?_eq_some_iff.mp hopen
  rw [List.drop_eq_getElem_cons hlt, hparen]

/-- **By offsets, the match has the offset of its position,** whichever way the bytes are read. -/
lemma parenEnd_matching {place : Nat → List Char → Prop} {bytes : List UInt8} {size : Char → Nat}
    [Places place bytes size] {i : Nat} {offset : Nat → Nat}
    (hcounts : Counts place text.length offset) (h : place i (text.drop opening))
    (hopen : text[opening]? = some '(') :
    parenEnd bytes 0 i = some ((Code.matchingParen? text opening).map offset) := by
  rw [drop_eq_paren hopen] at h
  rw [parenEnd_of_read (Places.read_ascii h (by decide)), if_pos rfl]
  obtain ⟨place?, hplace, hrel⟩ := parenEnd_at (next_ascii h (by decide))
  rw [hplace, Code.matchingParen?]
  cases hafter : Code.afterParen? 0 (text.drop (opening + 1)) with
  | none =>
    rw [hafter] at hrel
    cases hrel with
    | none => rfl
  | some after =>
    rw [hafter] at hrel
    cases hrel with
    | some hclose =>
      have hle : (')' :: after).length ≤ text.length := by
        have hshorter := Code.length_afterParen?_lt hafter
        rw [List.length_drop] at hshorter
        rw [List.length_cons]
        omega
      rw [hcounts.eq_offset hclose (Nat.sub_add_cancel hle)]
      rfl

/-- In bytes that are read one by one, the match has its position for an offset. -/
lemma parenEnd_of_characters {bytes : List UInt8} (hopen : (characters bytes)[opening]? = some '(') :
    parenEnd bytes 0 opening = some (Code.matchingParen? (characters bytes) opening) := by
  have hlt := (List.getElem?_eq_some_iff.mp hopen).1
  rw [characters, List.length_map] at hlt
  have hreads : ReadsAs bytes opening ((characters bytes).drop opening) :=
    ⟨Nat.le_of_lt hlt, rfl⟩
  rw [parenEnd_matching (ReadsAs.counts bytes) hreads hopen, Option.map_id_fun, id_eq]

end Parentheses

/-- **The match of a parenthesis agrees with the spans on what is code.** For a parenthesis outside of
all spans, its match is the first position behind it, outside of all spans, where the parentheses
outside of the spans are in balance, and there is a match only if all that is quoted or commented up
to there is closed. For any bytes the search by offsets finds the same, and so do the spans, in what
the bytes read as; in the bytes of a text it finds the offset of the match. -/
theorem matching_paren_agrees_with_spans {text : List Char} {opening : Nat}
    (hopen : text[opening]? = some '(') (hcode : ∀ span ∈ Code.spans text, span.covers opening = false)
    (closing : Nat) :
    (Code.matchingParen? text opening = some closing ↔
      Code.ClosesAt text opening closing ∧
        ∀ span ∈ Code.spans text, opening < span.start → span.start < closing →
          Code.Terminated (span.part text)) ∧
    (∀ bytes, characters bytes = text →
      spans bytes 0 = some (Code.spans text) ∧
        parenEnd bytes 0 opening = some (Code.matchingParen? text opening)) ∧
    parenEnd (encode text) 0 (Text.byteOffset text opening)
      = some ((Code.matchingParen? text opening).map (Text.byteOffset text)) := by
  have hcodeAt : Code.isCodeAt text opening = true := by
    rw [Code.isCodeAt, List.all_eq_true]
    intro span hspan
    rw [hcode span hspan, Bool.not_false]
  refine ⟨Code.matchingParen?_eq_some_iff hopen hcodeAt, ?_,
    parenEnd_matching (At.counts text) (at_byteOffset text opening) hopen⟩
  rintro bytes rfl
  exact ⟨spans_characters bytes, parenEnd_of_characters hopen⟩

/-- The match of the first parenthesis lies behind a quoted parenthesis, a call and a comment. -/
theorem matching_paren_behind_quoted :
    let text := "x(')', g(y) /* ( */)".toList
    text[1]? = some '(' ∧ (∀ span ∈ Code.spans text, span.covers 1 = false) ∧
      Code.ClosesAt text 1 19 ∧
      ∀ span ∈ Code.spans text, 1 < span.start → span.start < 19 →
        Code.Terminated (span.part text) := by
  intro text
  have htext : text = _ := String.toList_ofList
  have hopen : text[1]? = some '(' := by
    rw [htext]
    decide
  have hcode : ∀ span ∈ Code.spans text, span.covers 1 = false := by
    rw [htext]
    decide +kernel
  have hmatch : Code.matchingParen? text 1 = some 19 := by
    rw [htext]
    decide +kernel
  obtain ⟨hcloses, hclosed⟩ := (matching_paren_agrees_with_spans hopen hcode 19).1.mp hmatch
  exact ⟨hopen, hcode, hcloses, hclosed⟩

/-! ## Spans -/

/-- **The spans are the one way to cut a text into code, comments and quoted texts.** So are the spans
by offsets for any bytes, and for the bytes of a text they are the offsets of its spans. -/
theorem spans_are_the_segmentation :
    (∀ (text : List Char) (list : List Code.Span),
      Code.Segments text list ↔ list = Code.spans text) ∧
    (∀ (bytes : List UInt8) (list : List Code.Span),
      Code.Segments (characters bytes) list ↔ spans bytes 0 = some list) ∧
    ∀ text : List Char,
      spans (encode text) 0 = some ((Code.spans text).map (spanOffsets text)) := by
  refine ⟨fun _ _ => Code.segments_iff, fun bytes list => ?_, fun text => ?_⟩
  · rw [Code.segments_iff, spans_characters, Option.some.injEq, eq_comm]
  · exact spans_encode text

end CachedRoutes.Bytes
