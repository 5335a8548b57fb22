import CachedRoutes.Proofs.Bytes.Scan
import CachedRoutes.Proofs.Code.Chain
import CachedRoutes.Proofs.Code.Span
import Mathlib.Data.Nat.PSub

/-!
# Brackets, spans and chains as loops over bytes

The loops that look for the end of something larger than a token. They have values for all texts, and
agree with the scanners on lists. Brackets and spans are found in any bytes.

* **Brackets** (`parenEnd_at`, `braceEnd_at`): a depth is counted, and there is no value if it would go
  below zero. The bracket that was opened first keeps it above zero up to its match.
* **Spans** (`spans_at`): the spans of comments and quoted texts have the offsets of their character
  positions, in the bytes of a text (`spans_encode`) and in any bytes (`spans_characters`).
* **Chains** (`calls_at`): names are cut out between two places, and calls follow each other as in the
  list.
-/

namespace CachedRoutes.Bytes

/-! ## The loops -/

/-- The offset of the parenthesis that brings the depth to zero, if there is one. -/
def parenEnd (bytes : List UInt8) (depth i : Nat) : Option (Option Nat) := do
  if i < bytes.length then
    let c ← read bytes i
    if c = '(' then parenEnd bytes (depth + 1) (i + 1)
    else if c = ')' then
      let depth ← depth.ppred
      if depth = 0 then return some i else parenEnd bytes depth (i + 1)
    else if c = '/' ∧ read bytes (i + 1) = some '/' then
      let stop ← lineEnd bytes i
      if Ahead bytes i stop then parenEnd bytes depth stop else none
    else if c = '/' ∧ read bytes (i + 1) = some '*' then
      match ← blockEnd bytes (i + 2) with
      | some stop => if Ahead bytes i stop then parenEnd bytes depth stop else none
      | none => return none
    else if Code.isQuote c then
      match ← quotedEnd c bytes (i + 1) with
      | some stop => if Ahead bytes i stop then parenEnd bytes depth stop else none
      | none => return none
    else parenEnd bytes depth (i + 1)
  else return none
termination_by bytes.length - i
decreasing_by
  · omega
  · omega
  · exact Ahead.sub_lt ‹_›
  · exact Ahead.sub_lt ‹_›
  · exact Ahead.sub_lt ‹_›
  · omega

/-- The offset of the brace that brings the depth to zero, if there is one. -/
def braceEnd (bytes : List UInt8) (depth i : Nat) : Option (Option Nat) := do
  if i < bytes.length then
    let c ← read bytes i
    if c = '\x7b' then braceEnd bytes (depth + 1) (i + 1)
    else if c = '\x7d' then
      let depth ← depth.ppred
      if depth = 0 then return some i else braceEnd bytes depth (i + 1)
    else if Code.isQuote c then
      match ← quotedEnd c bytes (i + 1) with
      | some stop => if Ahead bytes i stop then braceEnd bytes depth stop else none
      | none => return none
    else braceEnd bytes depth (i + 1)
  else return none
termination_by bytes.length - i
decreasing_by
  · omega
  · omega
  · exact Ahead.sub_lt ‹_›
  · omega

/-- The offset behind the comment or quoted text that starts with `c`, if one does. -/
def inertEnd (bytes : List UInt8) (c : Char) (i : Nat) : Option (Option Nat) := do
  if c = '/' ∧ read bytes (i + 1) = some '/' then
    let stop ← lineEnd bytes i
    return some stop
  else if c = '/' ∧ read bytes (i + 1) = some '*' then
    let stop ← blockEnd bytes (i + 2)
    return some (stop.getD bytes.length)
  else if Code.isQuote c then
    match ← quotedEnd c bytes (i + 1) with
    | some stop => return some stop
    | none =>
      let stop ← lineEnd bytes (i + 1)
      return some stop
  else return none

/-- The comments and quoted texts from an offset on, by byte offsets. -/
def spans (bytes : List UInt8) (i : Nat) : Option (List Code.Span) := do
  if i < bytes.length then
    let c ← read bytes i
    match ← inertEnd bytes c i with
    | some stop =>
      if Ahead bytes i stop then
        let others ← spans bytes stop
        return ⟨i, stop⟩ :: others
      else none
    | none => spans bytes (i + 1)
  else return []
termination_by bytes.length - i
decreasing_by
  · exact Ahead.sub_lt ‹_›
  · omega

/-! ## One round of a loop -/

section Rounds

variable {bytes : List UInt8} {i : Nat} {c : Char}

/-- One round of the search for a parenthesis, by the byte that is read. -/
lemma parenEnd_of_read {depth : Nat} (h : read bytes i = some c) :
    parenEnd bytes depth i
      = if c = '(' then parenEnd bytes (depth + 1) (i + 1)
        else if c = ')' then
          depth.ppred.bind fun depth =>
            if depth = 0 then some (some i) else parenEnd bytes depth (i + 1)
        else if c = '/' ∧ read bytes (i + 1) = some '/' then
          (lineEnd bytes i).bind fun stop =>
            if Ahead bytes i stop then parenEnd bytes depth stop else none
        else if c = '/' ∧ read bytes (i + 1) = some '*' then
          (blockEnd bytes (i + 2)).bind fun
            | some stop => if Ahead bytes i stop then parenEnd bytes depth stop else none
            | none => some none
        else if Code.isQuote c then
          (quotedEnd c bytes (i + 1)).bind fun
            | some stop => if Ahead bytes i stop then parenEnd bytes depth stop else none
            | none => some none
        else parenEnd bytes depth (i + 1) := by
  rw [parenEnd, if_pos (lt_of_read h), h]
  rfl

/-- At the end of the bytes there is no parenthesis. -/
lemma parenEnd_of_le {depth : Nat} (h : bytes.length ≤ i) : parenEnd bytes depth i = some none := by
  rw [parenEnd, if_neg (Nat.not_lt.mpr h)]
  rfl

/-- One round of the search for a brace, by the byte that is read. -/
lemma braceEnd_of_read {depth : Nat} (h : read bytes i = some c) :
    braceEnd bytes depth i
      = if c = '\x7b' then braceEnd bytes (depth + 1) (i + 1)
        else if c = '\x7d' then
          depth.ppred.bind fun depth =>
            if depth = 0 then some (some i) else braceEnd bytes depth (i + 1)
        else if Code.isQuote c then
          (quotedEnd c bytes (i + 1)).bind fun
            | some stop => if Ahead bytes i stop then braceEnd bytes depth stop else none
            | none => some none
        else braceEnd bytes depth (i + 1) := by
  rw [braceEnd, if_pos (lt_of_read h), h]
  rfl

/-- At the end of the bytes there is no brace. -/
lemma braceEnd_of_le {depth : Nat} (h : bytes.length ≤ i) : braceEnd bytes depth i = some none := by
  rw [braceEnd, if_neg (Nat.not_lt.mpr h)]
  rfl

/-- A quote inside of parentheses starts a quoted text. -/
lemma parenEnd_quote {depth : Nat} (hread : read bytes i = some c) (hc : Code.isQuote c = true) :
    parenEnd bytes depth i = (quotedEnd c bytes (i + 1)).bind fun
      | some stop => if Ahead bytes i stop then parenEnd bytes depth stop else none
      | none => some none := by
  have hslash : c ≠ '/' := ne_of_isQuote hc (by decide)
  rw [parenEnd_of_read hread, if_neg (ne_of_isQuote hc (by decide)),
    if_neg (ne_of_isQuote hc (by decide)), if_neg (fun hline => hslash hline.1),
    if_neg (fun hblock => hslash hblock.1), if_pos hc]

/-- A block comment inside of parentheses is looked for its end. -/
lemma parenEnd_block {depth : Nat} (hslash : read bytes i = some '/')
    (hstar : read bytes (i + 1) = some '*') :
    parenEnd bytes depth i = (blockEnd bytes (i + 2)).bind fun
      | some stop => if Ahead bytes i stop then parenEnd bytes depth stop else none
      | none => some none := by
  have hline : ¬ ('/' = '/' ∧ read bytes (i + 1) = some '/') := by
    rw [hstar]
    decide
  rw [parenEnd_of_read hslash, if_neg (by decide), if_neg (by decide), if_neg hline,
    if_pos ⟨rfl, hstar⟩]

/-- A byte inside of parentheses that means nothing there is passed over. -/
lemma parenEnd_step {depth : Nat} (hread : read bytes i = some c) (hopen : c ≠ '(')
    (hclose : c ≠ ')') (hline : ¬ (c = '/' ∧ read bytes (i + 1) = some '/'))
    (hblock : ¬ (c = '/' ∧ read bytes (i + 1) = some '*')) (hquote : Code.isQuote c = false) :
    parenEnd bytes depth i = parenEnd bytes depth (i + 1) := by
  rw [parenEnd_of_read hread, if_neg hopen, if_neg hclose, if_neg hline, if_neg hblock, hquote]
  rfl

/-- A byte inside of braces that means nothing there is passed over. -/
lemma braceEnd_step {depth : Nat} (hread : read bytes i = some c)
    (hopen : c ≠ '\x7b') (hclose : c ≠ '\x7d') (hquote : Code.isQuote c = false) :
    braceEnd bytes depth i = braceEnd bytes depth (i + 1) := by
  rw [braceEnd_of_read hread, if_neg hopen, if_neg hclose, hquote]
  rfl

/-- A quote inside of braces starts a quoted text. -/
lemma braceEnd_quote {depth : Nat} (hread : read bytes i = some c)
    (hc : Code.isQuote c = true) :
    braceEnd bytes depth i = (quotedEnd c bytes (i + 1)).bind fun
      | some stop => if Ahead bytes i stop then braceEnd bytes depth stop else none
      | none => some none := by
  rw [braceEnd_of_read hread, if_neg (ne_of_isQuote hc (by decide)),
    if_neg (ne_of_isQuote hc (by decide)), if_pos hc]

/-- One round of the search for spans: a span starts at this byte, or the search goes on behind it.
-/
lemma spans_of_read (h : read bytes i = some c) :
    spans bytes i = (inertEnd bytes c i).bind fun
      | some stop =>
        if Ahead bytes i stop then (spans bytes stop).bind fun others => some (⟨i, stop⟩ :: others)
        else none
      | none => spans bytes (i + 1) := by
  rw [spans, if_pos (lt_of_read h), h]
  rfl

/-- At the end of the bytes there are no more spans. -/
lemma spans_of_le (h : bytes.length ≤ i) : spans bytes i = some [] := by
  rw [spans, if_neg (Nat.not_lt.mpr h)]
  rfl

/-- Nothing starts with a byte of a long character. -/
lemma inertEnd_of_long (hc : isAscii c = false) :
    inertEnd bytes c i = some none := by
  have hslash : c ≠ '/' := ne_of_isAscii hc (by decide)
  unfold inertEnd
  rw [if_neg (fun hline => hslash hline.1), if_neg (fun hblock => hslash hblock.1),
    eq_false_of_ascii (fun _ => isAscii_of_isQuote) hc]
  rfl

end Rounds

section Agreement

variable {place : Nat → List Char → Prop} {bytes : List UInt8} {size : Char → Nat}
  [hplaces : Places place bytes size] {rest : List Char} {i : Nat}

include hplaces

/-! ## Brackets -/

/-- **An open parenthesis is closed where it is closed in the list.** It counts for one, so that the
depth stays above zero up to there. -/
lemma parenEnd_at {depth : Nat} (h : place i rest) :
    Finds place (parenEnd bytes (depth + 1) i)
      ((Code.afterParen? depth rest).map (')' :: ·)) := by
  fun_induction Code.afterParen? depth rest generalizing i with
  | case1 =>
    rw [parenEnd_of_le (Nat.le_of_eq (Places.length_eq h).symm)]
    exact Finds.of_none
  | case2 depth rest ih =>
    rw [parenEnd_of_read (Places.read_ascii h (by decide)), if_pos rfl]
    exact ih (next_ascii h (by decide))
  | case3 rest =>
    rw [parenEnd_of_read (Places.read_ascii h (by decide)), if_neg (by decide), if_pos rfl]
    exact Finds.of_some h
  | case4 rest depth ih =>
    rw [parenEnd_of_read (Places.read_ascii h (by decide)), if_neg (by decide), if_pos rfl]
    exact ih (next_ascii h (by decide))
  | case5 depth line ih =>
    have hslash := next_ascii h (by decide)
    obtain ⟨stop, hstop, hat⟩ := lineEnd_at h
    have hlt : (Code.afterLine line).length < ('/' :: '/' :: line).length :=
      Nat.lt_succ_of_lt (Nat.lt_succ_of_le (Code.length_afterLine_le line))
    rw [parenEnd_of_read (Places.read_ascii h (by decide)), if_neg (by decide), if_neg (by decide),
      if_pos ⟨rfl, Places.read_ascii hslash (by decide)⟩, hstop, Option.bind_some,
      if_pos (ahead h hat hlt)]
    exact ih hat
  | case6 depth block after hafter ih =>
    have hstar := next_ascii h (by decide)
    have hblock := blockEnd_at (next_ascii hstar (by decide))
    rw [hafter] at hblock
    rw [parenEnd_block (Places.read_ascii h (by decide)) (Places.read_ascii hstar (by decide))]
    apply hblock.bind_ahead h
    · exact Nat.lt_succ_of_lt (Nat.lt_succ_of_lt (Code.length_afterBlock?_lt hafter))
    · exact fun j hat => ih hat
  | case7 depth block hafter =>
    have hstar := next_ascii h (by decide)
    have hblock := blockEnd_at (next_ascii hstar (by decide))
    rw [hafter] at hblock
    rw [parenEnd_block (Places.read_ascii h (by decide)) (Places.read_ascii hstar (by decide))]
    exact hblock.bind_none
  | case8 depth c rest _ _ _ _ hquote after hafter ih =>
    have hquoted := quotedEnd_at hquote (next_ascii h (isAscii_of_isQuote hquote))
    rw [hafter] at hquoted
    rw [parenEnd_quote (Places.read_ascii h (isAscii_of_isQuote hquote)) hquote]
    apply hquoted.bind_ahead h
    · exact Nat.lt_succ_of_lt (Code.length_afterQuoted?_lt hafter)
    · exact fun j hat => ih hat
  | case9 depth c rest _ _ _ _ hquote hafter =>
    have hquoted := quotedEnd_at hquote (next_ascii h (isAscii_of_isQuote hquote))
    rw [hafter] at hquoted
    rw [parenEnd_quote (Places.read_ascii h (isAscii_of_isQuote hquote)) hquote]
    exact hquoted.bind_none
  | case10 depth c rest hopen hclose hline hblock hquote ih =>
    obtain ⟨d, hread, hlead⟩ := read_cons h
    have hstep : parenEnd bytes (depth + 1) i = parenEnd bytes (depth + 1) (i + 1) := by
      apply parenEnd_step hread
      · exact mt (hlead.eq_iff (by decide)).mp hopen
      · exact mt (hlead.eq_iff (by decide)).mp hclose
      · exact hlead.not_pair h (by decide) (by decide) hline
      · exact hlead.not_pair h (by decide) (by decide) hblock
      · rw [hlead.test coarse_isQuote]
        exact Bool.eq_false_iff.mpr hquote
    have hskip : parenEnd bytes (depth + 1) (i + 1)
        = parenEnd bytes (depth + 1) (i + size c) := by
      apply skip h
      intro _ j e he hlong
      have hslash : e ≠ '/' := ne_of_isAscii hlong (by decide)
      apply parenEnd_step he
      · exact ne_of_isAscii hlong (by decide)
      · exact ne_of_isAscii hlong (by decide)
      · exact fun hcomment => hslash hcomment.1
      · exact fun hcomment => hslash hcomment.1
      · exact eq_false_of_ascii (fun _ => isAscii_of_isQuote) hlong
    rw [hstep, hskip]
    exact ih (Places.next h)

/-- **An open brace is closed where it is closed in the list.** -/
lemma braceEnd_at {depth : Nat} (h : place i rest) :
    Finds place (braceEnd bytes (depth + 1) i)
      ((Code.afterBrace? depth rest).map ('\x7d' :: ·)) := by
  fun_induction Code.afterBrace? depth rest generalizing i with
  | case1 =>
    rw [braceEnd_of_le (Nat.le_of_eq (Places.length_eq h).symm)]
    exact Finds.of_none
  | case2 depth rest ih =>
    rw [braceEnd_of_read (Places.read_ascii h (by decide)), if_pos rfl]
    exact ih (next_ascii h (by decide))
  | case3 rest =>
    rw [braceEnd_of_read (Places.read_ascii h (by decide)), if_neg (by decide), if_pos rfl]
    exact Finds.of_some h
  | case4 rest depth ih =>
    rw [braceEnd_of_read (Places.read_ascii h (by decide)), if_neg (by decide), if_pos rfl]
    exact ih (next_ascii h (by decide))
  | case5 depth c rest _ _ hquote after hafter ih =>
    have hquoted := quotedEnd_at hquote (next_ascii h (isAscii_of_isQuote hquote))
    rw [hafter] at hquoted
    rw [braceEnd_quote (Places.read_ascii h (isAscii_of_isQuote hquote)) hquote]
    apply hquoted.bind_ahead h
    · exact Nat.lt_succ_of_lt (Code.length_afterQuoted?_lt hafter)
    · exact fun j hat => ih hat
  | case6 depth c rest _ _ hquote hafter =>
    have hquoted := quotedEnd_at hquote (next_ascii h (isAscii_of_isQuote hquote))
    rw [hafter] at hquoted
    rw [braceEnd_quote (Places.read_ascii h (isAscii_of_isQuote hquote)) hquote]
    exact hquoted.bind_none
  | case7 depth c rest hopen hclose hquote ih =>
    obtain ⟨d, hread, hlead⟩ := read_cons h
    have hstep : braceEnd bytes (depth + 1) i = braceEnd bytes (depth + 1) (i + 1) := by
      apply braceEnd_step hread
      · exact mt (hlead.eq_iff (by decide)).mp hopen
      · exact mt (hlead.eq_iff (by decide)).mp hclose
      · rw [hlead.test coarse_isQuote]
        exact Bool.eq_false_iff.mpr hquote
    have hskip : braceEnd bytes (depth + 1) (i + 1)
        = braceEnd bytes (depth + 1) (i + size c) := by
      apply skip h
      intro _ j e he hlong
      apply braceEnd_step he
      · exact ne_of_isAscii hlong (by decide)
      · exact ne_of_isAscii hlong (by decide)
      · exact eq_false_of_ascii (fun _ => isAscii_of_isQuote) hlong
    rw [hstep, hskip]
    exact ih (Places.next h)

/-! ## Spans -/

/-- A comment or quoted text ends where it ends in the list. -/
lemma inertEnd_at {c d : Char} (h : place i (c :: rest)) (hlead : Lead c d) :
    Finds place (inertEnd bytes d i) (Code.afterInert? c rest) := by
  unfold Code.afterInert?
  split
  · rename_i line
    obtain rfl := hlead.ascii (by decide)
    obtain ⟨stop, hstop, hat⟩ := lineEnd_at h
    unfold inertEnd
    rw [if_pos ⟨rfl, Places.read_ascii (next_ascii h (by decide)) (by decide)⟩, hstop]
    exact Finds.of_some hat
  · rename_i block
    obtain rfl := hlead.ascii (by decide)
    have hstar := next_ascii h (by decide)
    obtain ⟨stop?, hstop, hat⟩ := (blockEnd_at (next_ascii hstar (by decide))).getD
    have hline : ¬ ('/' = '/' ∧ read bytes (i + 1) = some '/') := by
      rw [Places.read_ascii hstar (by decide)]
      decide
    unfold inertEnd
    rw [if_neg hline, if_pos ⟨rfl, Places.read_ascii hstar (by decide)⟩, hstop]
    exact Finds.of_some hat
  · rename_i hline hblock
    unfold inertEnd
    rw [if_neg (hlead.not_pair h (by decide) (by decide) hline),
      if_neg (hlead.not_pair h (by decide) (by decide) hblock), hlead.test coarse_isQuote]
    by_cases hquote : Code.isQuote c = true
    · obtain rfl := hlead.ascii (isAscii_of_isQuote hquote)
      have hinside := next_ascii h (isAscii_of_isQuote hquote)
      obtain ⟨stop?, hstop, hrel⟩ := quotedEnd_at hquote hinside
      rw [if_pos hquote, if_pos hquote, hstop]
      generalize Code.afterQuoted? d rest = after? at hrel ⊢
      cases hrel with
      | some hat => exact Finds.of_some hat
      | none =>
        obtain ⟨stop, hstop, hat⟩ := lineEnd_at hinside
        rw [hstop]
        exact Finds.of_some hat
    · rw [if_neg hquote, if_neg hquote]
      exact Finds.of_none

/-- **The spans are those of the characters,** at the offsets of their positions. -/
lemma spans_at {total start : Nat} {offset : Nat → Nat} (hcounts : Counts place total offset)
    (h : place i rest) (hstart : start + rest.length = total) :
    spans bytes i = some ((Code.spansFrom start rest).map fun span =>
      ⟨offset span.start, offset span.stop⟩) := by
  fun_induction Code.spansFrom start rest generalizing i with
  | case1 start =>
    rw [spans_of_le (Nat.le_of_eq (Places.length_eq h).symm)]
    rfl
  | case2 start c rest after hinert position =>
    rename_i ih
    obtain ⟨d, hread, hlead⟩ := read_cons h
    obtain ⟨stop?, hstop, hrel⟩ := inertEnd_at h hlead
    rw [hinert] at hrel
    cases hrel with
    | some hat =>
      rename_i stop
      have hshorter := Code.length_afterInert?_le hinert
      have hposition : position + after.length = total := by
        rw [List.length_cons] at hstart
        omega
      rw [spans_of_read hread, hstop, Option.bind_some]
      dsimp only
      rw [if_pos (ahead h hat (Nat.lt_succ_of_le hshorter)), ih hat hposition, List.map_cons]
      dsimp only
      rw [← hcounts.eq_offset h hstart, ← hcounts.eq_offset hat hposition]
      rfl
  | case3 start c rest hinert ih =>
    obtain ⟨d, hread, hlead⟩ := read_cons h
    obtain ⟨stop?, hstop, hrel⟩ := inertEnd_at h hlead
    rw [hinert] at hrel
    cases hrel with
    | none =>
      have hskip : spans bytes (i + 1) = spans bytes (i + size c) := by
        apply skip h
        intro _ j e he hlong
        rw [spans_of_read he, inertEnd_of_long hlong]
        rfl
      rw [spans_of_read hread, hstop, Option.bind_some, hskip]
      apply ih (Places.next h)
      rw [List.length_cons] at hstart
      omega

end Agreement

/-- The span by byte offsets, for one by character positions. -/
def spanOffsets (text : List Char) (span : Code.Span) : Code.Span :=
  ⟨Text.byteOffset text span.start, Text.byteOffset text span.stop⟩

/-- In the bytes of a text, the spans are those of the text by byte offsets. -/
lemma spans_encode (text : List Char) :
    spans (encode text) 0 = some ((Code.spans text).map (spanOffsets text)) :=
  spans_at (At.counts text) (At.start text) (Nat.zero_add _)

/-- In any bytes, the spans are those of the characters that they read as. -/
lemma spans_characters (bytes : List UInt8) :
    spans bytes 0 = some (Code.spans (characters bytes)) := by
  rw [spans_at (ReadsAs.counts bytes) (ReadsAs.start bytes) (Nat.zero_add _)]
  exact congrArg some (List.map_id _)

/-! ## Chains -/

section Chains

variable {text rest : List Char} {i : Nat}

/-- The name of the call behind a dot, and the offset behind its parenthesis. -/
def call (text : List Char) (dot : Nat) : Option (Option (String × Nat)) := do
  let bytes := encode text
  let nameAt ← skipTrivia bytes (dot + 1)
  let nameStop ← skipWhile Code.isNameChar bytes nameAt
  if nameStop = nameAt then return none
  else
    let opening ← skipTrivia bytes nameStop
    if read bytes opening = some '(' then
      match ← parenEnd bytes 0 opening with
      | some close =>
        let name ← cut text nameAt nameStop
        return some (String.ofList name, close + 1)
      | none => return none
    else return none

/-- The names of the calls from an offset on, behind those that are known, and the offset behind the
last call. There are none if something else than a call follows a dot. -/
def calls (text : List Char) (names : List String) (i : Nat) :
    Option (Option (List String × Nat)) := do
  let dot ← skipTrivia (encode text) i
  if read (encode text) dot = some '.' then
    match ← call text dot with
    | some (name, stop) =>
      if Ahead (encode text) i stop then calls text (names ++ [name]) stop else none
    | none => return none
  else return some (names, i)
termination_by (encode text).length - i
decreasing_by exact Ahead.sub_lt ‹_›

/-- A call is read as in the list: not at all without a name, a parenthesis or its match, and otherwise
up to the place behind its parenthesis. -/
lemma call_at {dotted : List Char} (h : At text i ('.' :: dotted)) :
    let named := Code.skipTrivia dotted
    let name := named.takeWhile Code.isNameChar
    let opened := Code.skipTrivia (named.dropWhile Code.isNameChar)
    (name = [] ∨ (∀ arguments, opened ≠ '(' :: arguments) ∨
        (∃ arguments, opened = '(' :: arguments ∧ Code.afterParen? 0 arguments = none) →
      call text i = some none) ∧
    ∀ arguments after, name ≠ [] → opened = '(' :: arguments →
      Code.afterParen? 0 arguments = some after →
        ∃ stop, call text i = some (some (String.ofList name, stop)) ∧ At text stop after := by
  intro named name opened
  obtain ⟨nameAt, hnameAt, hnamed⟩ := skipTrivia_at (next_ascii h (by decide))
  obtain ⟨nameStop, hnameStop, hbehind⟩ := skipWhile_at coarse_isNameChar hnamed
  obtain ⟨opening, hopening, hopened⟩ := skipTrivia_at hbehind
  have hempty : nameStop = nameAt ↔ name = [] := by
    rw [hbehind.eq_iff hnamed]
    have happend : name ++ named.dropWhile Code.isNameChar = named :=
      List.takeWhile_append_dropWhile
    constructor
    · intro hsame
      rw [show named.dropWhile Code.isNameChar = named from hsame] at happend
      exact List.append_left_eq_self.mp happend
    · intro hnil
      rw [hnil, List.nil_append] at happend
      exact happend
  have hparen : read (encode text) opening = some '(' ↔ ∃ arguments, opened = '(' :: arguments := by
    rw [read_iff hopened (by decide), List.head?_eq_some_iff]
  have hclose : ∀ arguments, opened = '(' :: arguments →
      Finds (At text) (parenEnd (encode text) 0 opening)
        ((Code.afterParen? 0 arguments).map (')' :: ·)) := by
    intro arguments hcons
    have hat : At text opening ('(' :: arguments) := hcons ▸ hopened
    rw [parenEnd_of_read (hat.read_ascii (by decide)), if_pos rfl]
    exact parenEnd_at (next_ascii hat (by decide))
  unfold call
  simp only [hnameAt, hnameStop, hopening, Option.bind_eq_bind, Option.bind_some, Option.pure_def]
  refine ⟨?_, ?_⟩
  · rintro (hnil | hno | ⟨arguments, hcons, hnone⟩)
    · rw [if_pos (hempty.mpr hnil)]
    · have hother : ¬ read (encode text) opening = some '(' := by
        rw [hparen]
        rintro ⟨arguments, hcons⟩
        exact hno arguments hcons
      rw [if_neg hother, ite_self]
    · have hfinds := hclose arguments hcons
      rw [hnone] at hfinds
      obtain ⟨place?, hplace, hrel⟩ := hfinds
      cases hrel with
      | none =>
        rw [if_pos (hparen.mpr ⟨arguments, hcons⟩), hplace]
        simp
  · intro arguments after hne hcons hafter
    have hfinds := hclose arguments hcons
    rw [hafter] at hfinds
    obtain ⟨place?, hplace, hrel⟩ := hfinds
    cases hrel with
    | some hat =>
      rename_i close
      have hwhole : At text nameAt (name ++ named.dropWhile Code.isNameChar) := by
        rw [List.takeWhile_append_dropWhile]
        exact hnamed
      rw [if_neg (mt hempty.mp hne), if_pos (hparen.mpr ⟨arguments, hcons⟩), hplace,
        Option.bind_some]
      dsimp only
      rw [hwhole.cut hbehind]
      exact ⟨close + 1, rfl, next_ascii hat (by decide)⟩

/-- Behind blanks and a dot the search goes on with a call. -/
lemma calls_of_dot {names : List String} {dotted : List Char} (h : At text i rest)
    (hdot : Code.skipTrivia rest = '.' :: dotted) :
    ∃ dot, At text dot ('.' :: dotted) ∧ calls text names i = (call text dot).bind fun
      | some (name, stop) =>
        if Ahead (encode text) i stop then calls text (names ++ [name]) stop else none
      | none => some none := by
  obtain ⟨dot, hskip, hat⟩ := skipTrivia_at h
  rw [hdot] at hat
  refine ⟨dot, hat, ?_⟩
  rw [calls, hskip, Option.bind_eq_bind, Option.bind_some, if_pos (hat.read_ascii (by decide))]
  rfl

/-- What follows a call is shorter. -/
lemma length_after_call {dotted arguments after : List Char}
    (hdot : Code.skipTrivia rest = '.' :: dotted)
    (hopen : Code.skipTrivia ((Code.skipTrivia dotted).dropWhile Code.isNameChar) = '(' :: arguments)
    (hafter : Code.afterParen? 0 arguments = some after) : after.length < rest.length := by
  have hrest := Code.length_skipTrivia_le rest
  have hnamed := Code.length_skipTrivia_le dotted
  have hname := (List.dropWhile_sublist Code.isNameChar (l := Code.skipTrivia dotted)).length_le
  have hopened := Code.length_skipTrivia_le ((Code.skipTrivia dotted).dropWhile Code.isNameChar)
  have hclosed := Code.length_afterParen?_lt hafter
  rw [hdot, List.length_cons] at hrest
  rw [hopen, List.length_cons] at hopened
  omega

/-- **A chain ends where it ends in the list, with the same names.** -/
lemma calls_at (names : List String) (h : At text i rest) :
    ∃ found, calls text names i = some found ∧
      Option.Rel (fun found listed => found.1 = names ++ listed.1 ∧ At text found.2 listed.2) found
        (Code.calls? rest) := by
  fun_induction Code.calls? rest generalizing i names with
  | case1 rest dotted hdot named =>
    rename_i name hempty
    obtain ⟨dot, hat, hround⟩ := calls_of_dot h hdot
    rw [hround, (call_at hat).1 (.inl (List.isEmpty_iff.mp hempty))]
    exact ⟨none, rfl, .none⟩
  | case2 rest dotted hdot named name hempty arguments hopen after hafter listed behind =>
    rename_i hcalls ih
    obtain ⟨dot, hat, hround⟩ := calls_of_dot h hdot
    obtain ⟨stop, hcall, hstop⟩ := (call_at hat).2 arguments after
      (mt List.isEmpty_iff.mpr hempty) hopen hafter
    obtain ⟨found, hfound, hrel⟩ := ih (names ++ [String.ofList name]) hstop
    rw [hcalls] at hrel
    cases hrel with
    | some hboth =>
      rename_i found
      refine ⟨some found, ?_, .some ⟨?_, hboth.2⟩⟩
      · rw [hround, hcall, Option.bind_some]
        dsimp only
        rw [if_pos (ahead h hstop (length_after_call hdot hopen hafter))]
        exact hfound
      · rw [hboth.1, List.append_assoc]
        rfl
  | case3 rest dotted hdot named name hempty arguments hopen after hafter =>
    rename_i hcalls ih
    obtain ⟨dot, hat, hround⟩ := calls_of_dot h hdot
    obtain ⟨stop, hcall, hstop⟩ := (call_at hat).2 arguments after
      (mt List.isEmpty_iff.mpr hempty) hopen hafter
    obtain ⟨found, hfound, hrel⟩ := ih (names ++ [String.ofList name]) hstop
    rw [hcalls] at hrel
    cases hrel with
    | none =>
      refine ⟨none, ?_, .none⟩
      rw [hround, hcall, Option.bind_some]
      dsimp only
      rw [if_pos (ahead h hstop (length_after_call hdot hopen hafter))]
      exact hfound
  | case4 rest dotted hdot named name hempty arguments =>
    rename_i hopen hafter
    obtain ⟨dot, hat, hround⟩ := calls_of_dot h hdot
    rw [hround, (call_at hat).1 (.inr (.inr ⟨arguments, hopen, hafter⟩))]
    exact ⟨none, rfl, .none⟩
  | case5 rest dotted hdot named name =>
    rename_i hempty hopen
    obtain ⟨dot, hat, hround⟩ := calls_of_dot h hdot
    rw [hround, (call_at hat).1 (.inr (.inl hopen))]
    exact ⟨none, rfl, .none⟩
  | case6 rest hdot =>
    obtain ⟨dot, hskip, hat⟩ := skipTrivia_at h
    have hother : read (encode text) dot ≠ some '.' := by
      rw [ne_eq, read_iff hat (by decide), List.head?_eq_some_iff]
      rintro ⟨dotted, hcons⟩
      exact hdot dotted hcons
    rw [calls, hskip, Option.bind_eq_bind, Option.bind_some, if_neg hother]
    exact ⟨some (names, i), rfl, .some ⟨by simp, h⟩⟩

end Chains

end CachedRoutes.Bytes
