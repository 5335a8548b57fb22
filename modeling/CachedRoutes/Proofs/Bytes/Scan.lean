import CachedRoutes.Proofs.Bytes.Place
import CachedRoutes.Proofs.Code.Input

/-!
# The scanners as loops over bytes

The scanners of source code again, as index loops over the bytes of a text. A loop has no value if it
reads a byte that is not there, or if a round does not get ahead, so that the loop would not come to an
end. Each of them has a value for all texts, and it is the place of what the scanner on lists leaves
over.

* **Runs, comments, quoted texts** (`skipWhile_at`, `blockEnd_at`, `quotedEnd_at`): a backslash skips
  two bytes, which may end inside a character; the search comes out at the next one.
* **Blanks and comments** (`skipTrivia_at`): a comment without an end reaches to the end of the text.
-/

namespace CachedRoutes.Bytes

/-! ## The loops -/

/-- An offset at which a loop may go on: it is ahead of the last one, and not behind the end. -/
def Ahead (bytes : List UInt8) (i stop : Nat) : Prop :=
  i < stop ∧ stop ≤ bytes.length

instance (bytes : List UInt8) (i stop : Nat) : Decidable (Ahead bytes i stop) :=
  inferInstanceAs (Decidable (i < stop ∧ stop ≤ bytes.length))

/-- There are fewer bytes left then. -/
lemma Ahead.sub_lt {bytes : List UInt8} {i stop : Nat} (h : Ahead bytes i stop) :
    bytes.length - stop < bytes.length - i := by
  obtain ⟨hlt, hle⟩ := h
  omega

/-- The offset behind a run of bytes of a class. -/
def skipWhile (p : Char → Bool) (bytes : List UInt8) (i : Nat) : Option Nat := do
  if i < bytes.length then
    let c ← read bytes i
    if p c then skipWhile p bytes (i + 1) else return i
  else return i
termination_by bytes.length - i

/-- The offset behind a block comment, from inside of it on; it may have no end. -/
def blockEnd (bytes : List UInt8) (i : Nat) : Option (Option Nat) := do
  if i + 1 < bytes.length then
    let c ← read bytes i
    let d ← read bytes (i + 1)
    if c = '*' ∧ d = '/' then return some (i + 2) else blockEnd bytes (i + 1)
  else return none
termination_by bytes.length - i

/-- The offset behind a quoted text, from inside of it on; it may have no end. -/
def quotedEnd (quote : Char) (bytes : List UInt8) (i : Nat) : Option (Option Nat) := do
  if i < bytes.length then
    let c ← read bytes i
    if c = '\\' then quotedEnd quote bytes (i + 2)
    else if c = '\n' ∧ quote ≠ Code.backtick then return none
    else if c = quote then return some (i + 1)
    else quotedEnd quote bytes (i + 1)
  else return none
termination_by bytes.length - i

/-- The offset of the end of a line. -/
def lineEnd (bytes : List UInt8) (i : Nat) : Option Nat :=
  skipWhile (· != '\n') bytes i

/-- The offset behind blanks and comments. -/
def skipTrivia (bytes : List UInt8) (i : Nat) : Option Nat := do
  let j ← skipWhile Code.isSpace bytes i
  if read bytes j = some '/' ∧ read bytes (j + 1) = some '/' then
    let stop ← lineEnd bytes j
    if Ahead bytes i stop then skipTrivia bytes stop else none
  else if read bytes j = some '/' ∧ read bytes (j + 1) = some '*' then
    let stop? ← blockEnd bytes (j + 2)
    if Ahead bytes i (stop?.getD bytes.length) then skipTrivia bytes (stop?.getD bytes.length)
    else none
  else return j
termination_by bytes.length - i
decreasing_by
  · exact Ahead.sub_lt ‹_›
  · exact Ahead.sub_lt ‹_›

/-! ## One round of a loop -/

section Rounds

variable {bytes : List UInt8} {i : Nat} {c : Char}

/-- One round of a run, by the byte that is read. -/
lemma skipWhile_of_read {p : Char → Bool} (h : read bytes i = some c) :
    skipWhile p bytes i = if p c then skipWhile p bytes (i + 1) else some i := by
  rw [skipWhile, if_pos (lt_of_read h), h]
  rfl

/-- At the end of the bytes a run ends. -/
lemma skipWhile_of_le {p : Char → Bool} (h : bytes.length ≤ i) : skipWhile p bytes i = some i := by
  rw [skipWhile, if_neg (Nat.not_lt.mpr h)]
  rfl

/-- One round of the search for the end of a block comment, by the two bytes that are read. -/
lemma blockEnd_of_read {d : Char} (h : read bytes i = some c) (h' : read bytes (i + 1) = some d) :
    blockEnd bytes i
      = if c = '*' ∧ d = '/' then some (some (i + 2)) else blockEnd bytes (i + 1) := by
  rw [blockEnd, if_pos (lt_of_read h'), h, h']
  rfl

/-- With less than two bytes left, a block comment has no end. -/
lemma blockEnd_of_le (h : bytes.length ≤ i + 1) : blockEnd bytes i = some none := by
  rw [blockEnd, if_neg (Nat.not_lt.mpr h)]
  rfl

/-- One round of the search for the end of a quoted text, by the byte that is read. -/
lemma quotedEnd_of_read {quote : Char} (h : read bytes i = some c) :
    quotedEnd quote bytes i
      = if c = '\\' then quotedEnd quote bytes (i + 2)
        else if c = '\n' ∧ quote ≠ Code.backtick then some none
        else if c = quote then some (some (i + 1))
        else quotedEnd quote bytes (i + 1) := by
  rw [quotedEnd, if_pos (lt_of_read h), h]
  rfl

/-- At the end of the bytes a quoted text has no end. -/
lemma quotedEnd_of_le {quote : Char} (h : bytes.length ≤ i) :
    quotedEnd quote bytes i = some none := by
  rw [quotedEnd, if_neg (Nat.not_lt.mpr h)]
  rfl

/-- Behind a byte of a block comment that does not start its end, the search goes on. -/
lemma blockEnd_step (hread : read bytes i = some c)
    (hopen : ¬ (c = '*' ∧ read bytes (i + 1) = some '/')) :
    blockEnd bytes i = blockEnd bytes (i + 1) := by
  by_cases hlt : i + 1 < bytes.length
  · obtain ⟨d, hd⟩ := exists_read hlt
    rw [blockEnd_of_read hread hd, if_neg]
    rintro ⟨hc, rfl⟩
    exact hopen ⟨hc, hd⟩
  · rw [blockEnd_of_le (by omega), blockEnd_of_le (by omega)]

/-- Behind a byte of a quoted text that means nothing there, the search goes on. -/
lemma quotedEnd_step {quote : Char} (hread : read bytes i = some c) (hescape : c ≠ '\\')
    (hfeed : ¬ (c = '\n' ∧ quote ≠ Code.backtick)) (hquote : c ≠ quote) :
    quotedEnd quote bytes i = quotedEnd quote bytes (i + 1) := by
  rw [quotedEnd_of_read hread, if_neg hescape, if_neg hfeed, if_neg hquote]

/-- One round of the search behind blanks and comments, from where the blanks end. -/
lemma skipTrivia_of_skipWhile {j : Nat} (h : skipWhile Code.isSpace bytes i = some j) :
    skipTrivia bytes i
      = if read bytes j = some '/' ∧ read bytes (j + 1) = some '/' then
          (lineEnd bytes j).bind fun stop =>
            if Ahead bytes i stop then skipTrivia bytes stop else none
        else if read bytes j = some '/' ∧ read bytes (j + 1) = some '*' then
          (blockEnd bytes (j + 2)).bind fun stop? =>
            if Ahead bytes i (stop?.getD bytes.length) then skipTrivia bytes (stop?.getD bytes.length)
            else none
        else some j := by
  rw [skipTrivia, h]
  rfl

/-- Where a loop goes on from the next byte, it does from this one. -/
lemma ite_ahead {k : Nat} {stop : Nat} {value : Option Nat}
    (h : (if Ahead bytes (i + 1) stop then value else none) = some k) :
    (if Ahead bytes i stop then value else none) = some k := by
  split at h
  · rename_i hahead
    rw [if_pos ⟨Nat.lt_of_succ_lt hahead.1, hahead.2⟩]
    exact h
  · simp at h

/-- A blank in front does not matter. -/
lemma skipTrivia_of_space {k : Nat} (hread : read bytes i = some c) (hc : Code.isSpace c = true)
    (h : skipTrivia bytes (i + 1) = some k) : skipTrivia bytes i = some k := by
  have hblanks : skipWhile Code.isSpace bytes i = skipWhile Code.isSpace bytes (i + 1) := by
    rw [skipWhile_of_read hread, if_pos hc]
  cases hj : skipWhile Code.isSpace bytes (i + 1) with
  | none =>
    rw [skipTrivia, hj] at h
    simp at h
  | some j =>
    rw [skipTrivia_of_skipWhile hj] at h
    rw [skipTrivia_of_skipWhile (hblanks.trans hj)]
    split at h
    · obtain ⟨stop, hstop, hgo⟩ := Option.bind_eq_some_iff.mp h
      rw [if_pos ‹_›, hstop]
      exact ite_ahead hgo
    · rw [if_neg ‹_›]
      split at h
      · obtain ⟨stop?, hstop, hgo⟩ := Option.bind_eq_some_iff.mp h
        rw [if_pos ‹_›, hstop]
        exact ite_ahead hgo
      · rw [if_neg ‹_›]
        exact h

end Rounds

/-! ## Classes of bytes -/

/-- Letters and digits are characters of ASCII. -/
lemma isAscii_of_isAlphanum {c : Char} (h : c.isAlphanum = true) : isAscii c = true := by
  delta Char.isAlphanum Char.isAlpha Char.isUpper Char.isLower Char.isDigit at h
  simp only [Bool.or_eq_true, Bool.and_eq_true, decide_eq_true_eq, ge_iff_le,
    UInt32.le_iff_toNat_le] at h
  change ((65 ≤ c.toNat ∧ c.toNat ≤ 90) ∨ (97 ≤ c.toNat ∧ c.toNat ≤ 122)) ∨
    (48 ≤ c.toNat ∧ c.toNat ≤ 57) at h
  rw [isAscii, decide_eq_true_eq]
  omega

/-- Blanks are characters of ASCII. -/
lemma isAscii_of_isSpace {c : Char} (h : Code.isSpace c = true) : isAscii c = true := by
  simp only [Code.isSpace, Bool.or_eq_true, beq_iff_eq] at h
  rcases h with (((rfl | rfl) | rfl) | rfl) | rfl <;> decide

/-- Blanks can be told from their first byte. -/
lemma coarse_isSpace : Coarse Code.isSpace :=
  coarse_of_ascii fun _ => isAscii_of_isSpace

/-- Characters of names are characters of ASCII. -/
lemma isAscii_of_isNameChar {c : Char} (h : Code.isNameChar c = true) : isAscii c = true := by
  simp only [Code.isNameChar, Bool.or_eq_true, beq_iff_eq] at h
  rcases h with (h | rfl) | rfl
  · exact isAscii_of_isAlphanum h
  · decide
  · decide

/-- Characters of names can be told from their first byte. -/
lemma coarse_isNameChar : Coarse Code.isNameChar :=
  coarse_of_ascii fun _ => isAscii_of_isNameChar

/-- Characters of numbers are characters of ASCII. -/
lemma isAscii_of_isNumberChar {c : Char} (h : Code.isNumberChar c = true) : isAscii c = true := by
  simp only [Code.isNumberChar, Bool.or_eq_true, beq_iff_eq] at h
  rcases h with (h | rfl) | rfl
  · exact isAscii_of_isAlphanum h
  · decide
  · decide

/-- Characters of numbers can be told from their first byte. -/
lemma coarse_isNumberChar : Coarse Code.isNumberChar :=
  coarse_of_ascii fun _ => isAscii_of_isNumberChar

/-- Quotes are characters of ASCII. -/
lemma isAscii_of_isQuote {c : Char} (h : Code.isQuote c = true) : isAscii c = true := by
  simp only [Code.isQuote, Bool.or_eq_true, beq_iff_eq] at h
  rcases h with (rfl | rfl) | rfl <;> decide

/-- A quote is none of the characters that are no quotes. -/
lemma ne_of_isQuote {c x : Char} (hc : Code.isQuote c = true) (hx : Code.isQuote x = false) :
    c ≠ x := by
  rintro rfl
  rw [hc] at hx
  exact Bool.noConfusion hx

/-- Quotes can be told from their first byte. -/
lemma coarse_isQuote : Coarse Code.isQuote :=
  coarse_of_ascii fun _ => isAscii_of_isQuote

/-- Whether a character is another than one of ASCII can be told from its first byte. -/
lemma coarse_ne {x : Char} (hx : isAscii x = true) : Coarse (· != x) := by
  intro c d hc hd
  dsimp only
  rw [bne_iff_ne.mpr (ne_of_isAscii hc hx), bne_iff_ne.mpr (ne_of_isAscii hd hx)]

/-! ## Agreement with the scanners on lists -/

/-- A search by offsets has a value, and finds the place of the given rest, or nothing. -/
def Finds (place : Nat → List Char → Prop) (search : Option (Option Nat))
    (rest? : Option (List Char)) : Prop :=
  ∃ place?, search = some place? ∧ Option.Rel place place? rest?

section Agreement

variable {place : Nat → List Char → Prop} {bytes : List UInt8} {size : Char → Nat}
  [hplaces : Places place bytes size] {rest : List Char} {i : Nat}

/-- A search that ends without a place finds nothing. -/
lemma Finds.of_none : Finds place (some none) none :=
  ⟨none, rfl, .none⟩

/-- A search that ends at a place finds it. -/
lemma Finds.of_some (h : place i rest) : Finds place (some (some i)) (some rest) :=
  ⟨some i, rfl, .some h⟩

/-- Where nothing was found, the search ends. -/
lemma Finds.bind_none {search : Option (Option Nat)} {f : Nat → Option (Option Nat)}
    (h : Finds place search none) :
    Finds place (search.bind fun | some stop => f stop | none => some none) none := by
  obtain ⟨place?, rfl, hrel⟩ := h
  cases hrel with
  | none => exact Finds.of_none

include hplaces

/-- A shorter rest starts ahead. -/
lemma ahead {after : List Char} {j : Nat} (h : place i rest) (h' : place j after)
    (hlt : after.length < rest.length) : Ahead bytes i j :=
  ⟨Places.lt_of_length_lt h h' hlt, le_length h'⟩

/-- A loop goes on behind something that was found. -/
lemma Finds.bind_ahead {search : Option (Option Nat)} {after : List Char}
    {f : Nat → Option (Option Nat)} {rest? : Option (List Char)} (h : Finds place search (some after))
    (hplace : place i rest) (hlt : after.length < rest.length)
    (hf : ∀ j, place j after → Finds place (f j) rest?) :
    Finds place (search.bind fun
      | some stop => if Ahead bytes i stop then f stop else none
      | none => some none) rest? := by
  obtain ⟨place?, rfl, hrel⟩ := h
  cases hrel with
  | some hat =>
    rw [Option.bind_some]
    dsimp only
    rw [if_pos (ahead hplace hat hlt)]
    exact hf _ hat

/-- A search for an end that may be missing, where the text ends instead. -/
lemma Finds.getD {search : Option (Option Nat)} {rest? : Option (List Char)}
    (h : Finds place search rest?) :
    ∃ place?, search = some place? ∧
      place (place?.getD bytes.length) (rest?.getD []) := by
  obtain ⟨place?, hsearch, hrel⟩ := h
  refine ⟨place?, hsearch, ?_⟩
  cases hrel with
  | none => exact Places.stop
  | some hat => exact hat

/-- **A run ends where it ends in the list.** -/
lemma skipWhile_at {p : Char → Bool} (hp : Coarse p) (h : place i rest) :
    ∃ j, skipWhile p bytes i = some j ∧ place j (rest.dropWhile p) := by
  induction rest generalizing i with
  | nil =>
    exact ⟨i, skipWhile_of_le (Nat.le_of_eq (Places.length_eq h).symm), h⟩
  | cons c rest ih =>
    obtain ⟨d, hread, hlead⟩ := read_cons h
    have hround : skipWhile p bytes i
        = if p c then skipWhile p bytes (i + 1) else some i := by
      rw [skipWhile_of_read hread, hlead.test hp]
    by_cases hc : p c = true
    · have hskip : skipWhile p bytes (i + 1) = skipWhile p bytes (i + size c) := by
        apply skip h
        intro hhigh j e he hlong
        rw [skipWhile_of_read he, hp e c hlong hhigh, if_pos hc]
      rw [hround, if_pos hc, hskip, List.dropWhile_cons_of_pos hc]
      exact ih (Places.next h)
    · rw [hround, if_neg hc, List.dropWhile_cons_of_neg hc]
      exact ⟨i, rfl, h⟩

/-- A line ends where it ends in the list. -/
lemma lineEnd_at (h : place i rest) :
    ∃ j, lineEnd bytes i = some j ∧ place j (Code.afterLine rest) :=
  skipWhile_at (coarse_ne (by decide)) h

/-- **A block comment ends where it ends in the list,** or has no end in both. -/
lemma blockEnd_at (h : place i rest) :
    Finds place (blockEnd bytes i) (Code.afterBlock? rest) := by
  fun_induction Code.afterBlock? rest generalizing i with
  | case1 =>
    have hlength := Places.length_eq h
    rw [blockEnd_of_le (by omega)]
    exact Finds.of_none
  | case2 rest =>
    have hslash := next_ascii h (by decide)
    rw [blockEnd_of_read (Places.read_ascii h (by decide)) (Places.read_ascii hslash (by decide)),
      if_pos ⟨rfl, rfl⟩]
    exact Finds.of_some (next_ascii hslash (by decide))
  | case3 c rest hopen ih =>
    obtain ⟨d, hread, hlead⟩ := read_cons h
    have hstep : blockEnd bytes i = blockEnd bytes (i + 1) := by
      apply blockEnd_step hread
      rintro ⟨hd, hslash⟩
      obtain rfl := (hlead.eq_iff (by decide)).mp hd
      rw [read_iff (next_ascii h (by decide)) (by decide)] at hslash
      obtain ⟨tail, rfl⟩ := List.head?_eq_some_iff.mp hslash
      exact hopen tail rfl rfl
    have hskip : blockEnd bytes (i + 1) = blockEnd bytes (i + size c) := by
      apply skip h
      intro _ j e he hlong
      apply blockEnd_step he
      rintro ⟨rfl, -⟩
      exact absurd hlong (by decide)
    rw [hstep, hskip]
    exact ih (Places.next h)

/-- The second byte of a character that stands in a quoted text starts nothing. -/
lemma quotedEnd_skip {quote c : Char} (hquote : Code.isQuote quote = true)
    (h : place i (c :: rest)) :
    quotedEnd quote bytes (i + 1) = quotedEnd quote bytes (i + size c) := by
  apply skip h
  intro _ j e he hlong
  apply quotedEnd_step he
  · exact ne_of_isAscii hlong (by decide)
  · exact fun hfeed => ne_of_isAscii hlong (by decide) hfeed.1
  · exact ne_of_isAscii hlong (isAscii_of_isQuote hquote)

/-- **A quoted text ends where it ends in the list,** also if a backslash hides a long character. -/
lemma quotedEnd_at {quote : Char} (hquote : Code.isQuote quote = true) (h : place i rest) :
    Finds place (quotedEnd quote bytes i) (Code.afterQuoted? quote rest) := by
  fun_induction Code.afterQuoted? quote rest generalizing i with
  | case1 =>
    rw [quotedEnd_of_le (Nat.le_of_eq (Places.length_eq h).symm)]
    exact Finds.of_none
  | case2 =>
    have hend := Places.length_eq (next_ascii h (by decide))
    rw [quotedEnd_of_read (Places.read_ascii h (by decide)), if_pos rfl, quotedEnd_of_le (by omega)]
    exact Finds.of_none
  | case3 c rest ih =>
    have hhidden := next_ascii h (by decide)
    rw [quotedEnd_of_read (Places.read_ascii h (by decide)), if_pos rfl, quotedEnd_skip hquote hhidden]
    exact ih (Places.next hhidden)
  | case4 c rest hescape _ hfeed =>
    rw [Bool.and_eq_true, decide_eq_true_eq, bne_iff_ne] at hfeed
    obtain ⟨rfl, hbacktick⟩ := hfeed
    rw [quotedEnd_of_read (Places.read_ascii h (by decide)), if_neg (by decide),
      if_pos ⟨rfl, hbacktick⟩]
    exact Finds.of_none
  | case5 rest hend hescape hfeed =>
    have hascii := isAscii_of_isQuote hquote
    rw [Bool.and_eq_true, decide_eq_true_eq, bne_iff_ne] at hfeed
    rw [quotedEnd_of_read (Places.read_ascii h hascii), if_neg (ne_of_isQuote hquote (by decide)),
      if_neg hfeed, if_pos rfl]
    exact Finds.of_some (next_ascii h hascii)
  | case6 c rest hend hescape hfeed hclose ih =>
    obtain ⟨d, hread, hlead⟩ := read_cons h
    rw [Bool.and_eq_true, decide_eq_true_eq, bne_iff_ne] at hfeed
    have hbackslash : c ≠ '\\' := by
      rintro rfl
      cases rest with
      | nil => exact hend rfl rfl
      | cons e rest => exact hescape e rest rfl rfl
    have hstep : quotedEnd quote bytes i = quotedEnd quote bytes (i + 1) := by
      apply quotedEnd_step hread
      · exact mt (hlead.eq_iff (by decide)).mp hbackslash
      · exact fun hboth => hfeed ⟨(hlead.eq_iff (by decide)).mp hboth.1, hboth.2⟩
      · exact mt (hlead.eq_iff (isAscii_of_isQuote hquote)).mp hclose
    rw [hstep, quotedEnd_skip hquote h]
    exact ih (Places.next h)

/-- **Blanks and comments end where they end in the list.** -/
lemma skipTrivia_at (h : place i rest) :
    ∃ j, skipTrivia bytes i = some j ∧ place j (Code.skipTrivia rest) := by
  fun_induction Code.skipTrivia rest generalizing i with
  | case1 =>
    have hspace : skipWhile Code.isSpace bytes i = some i :=
      skipWhile_of_le (Nat.le_of_eq (Places.length_eq h).symm)
    rw [skipTrivia_of_skipWhile hspace, if_neg, if_neg]
    · exact ⟨i, rfl, h⟩
    · simp [read_nil h]
    · simp [read_nil h]
  | case2 line ih =>
    have hslash := Places.read_ascii h (by decide)
    have hspace : skipWhile Code.isSpace bytes i = some i := by
      rw [skipWhile_of_read hslash]
      rfl
    obtain ⟨stop, hstop, hat⟩ := lineEnd_at h
    have hlt : (Code.afterLine line).length < ('/' :: '/' :: line).length :=
      Nat.lt_succ_of_lt (Nat.lt_succ_of_le (Code.length_afterLine_le line))
    rw [skipTrivia_of_skipWhile hspace,
      if_pos ⟨hslash, Places.read_ascii (next_ascii h (by decide)) (by decide)⟩, hstop,
      Option.bind_some, if_pos (ahead h hat hlt)]
    exact ih hat
  | case3 block ih =>
    have hslash := Places.read_ascii h (by decide)
    have hstar := next_ascii h (by decide)
    have hspace : skipWhile Code.isSpace bytes i = some i := by
      rw [skipWhile_of_read hslash]
      rfl
    obtain ⟨stop?, hstop, hat⟩ := (blockEnd_at (next_ascii hstar (by decide))).getD
    have hlt : (Code.afterBlock block).length < ('/' :: '*' :: block).length :=
      Nat.lt_succ_of_lt (Nat.lt_succ_of_le (Code.length_afterBlock_le block))
    rw [skipTrivia_of_skipWhile hspace, if_neg, if_pos ⟨hslash, Places.read_ascii hstar (by decide)⟩,
      hstop, Option.bind_some, if_pos (ahead h hat hlt)]
    · exact ih hat
    · rw [Places.read_ascii hstar (by decide)]
      simp
  | case4 c rest _ _ hspace ih =>
    have hascii := isAscii_of_isSpace hspace
    obtain ⟨j, hj, hat⟩ := ih (next_ascii h hascii)
    exact ⟨j, skipTrivia_of_space (Places.read_ascii h hascii) hspace hj, hat⟩
  | case5 c rest hline hblock hspace =>
    obtain ⟨d, hread, hlead⟩ := read_cons h
    have hrun : skipWhile Code.isSpace bytes i = some i := by
      rw [skipWhile_of_read hread, hlead.test coarse_isSpace, if_neg hspace]
    have hno : ∀ x, isAscii x = true → (∀ tail, c = '/' → rest = x :: tail → False) →
        ¬ (read bytes i = some '/' ∧ read bytes (i + 1) = some x) := by
      intro x hx hopen
      rw [hread, Option.some.injEq]
      exact hlead.not_pair h (by decide) hx hopen
    rw [skipTrivia_of_skipWhile hrun, if_neg (hno _ (by decide) hline),
      if_neg (hno _ (by decide) hblock)]
    exact ⟨i, rfl, h⟩

end Agreement

end CachedRoutes.Bytes
