import CachedRoutes.Proofs.Bytes.Chain

/-!
# The search for request input as a loop over bytes

The search for the first name that can differ between requests, by offsets: a loop over the tokens of
the code, a loop inside of each template, and a run of its own for the code of each interpolation, which
is cut out of the text and has to be shorter. What stands in front of a token is looked up in the byte
in front of it.

* **What is in front** (`contextAt`, `Stands`): the byte that the last token ends with, and the one in
  front of it, tell what a name means here.
* **One token** (`Goes`): what each kind of token leads to, with the context behind it. A run of dots
  takes as many rounds as it has dots, and a long character as many as it has bytes.
* **All tokens** (`agrees`, `inputFrom_eq`): by the number of characters left, the search has a value,
  and it is the name that the search in the list finds.
-/

namespace CachedRoutes.Bytes

open Code (Context KeyedInput)

/-! ## The loops -/

/-- What the byte that stands in front of a token says about a name there. A dot makes it a member, if
there is no other dot in front of that one. -/
def contextAt (bytes : List UInt8) (before : Option Nat) : Option Context := do
  match before with
  | none => return .plain
  | some 0 =>
    let c ← read bytes 0
    return if c = '.' then .member else .afterMark c
  | some (p + 1) =>
    let c ← read bytes (p + 1)
    let d ← read bytes p
    return if c = '.' then (if d = '.' then .plain else .member) else .afterMark c

/-- What becomes of the name between two offsets: it is an input, as written, or the search goes on
behind an offset, with the last byte in front of it. -/
def nameAt (known : KeyedInput) (code : List Char) (before : Option Nat) (i stop : Nat) :
    Option (Except (List Char) (Nat × Nat)) := do
  let bytes := encode code
  let name ← cut code i stop
  let next ← skipTrivia bytes stop
  let context ← contextAt bytes before
  if context = .member || (context = .entry && read bytes next == some ':')
      || Code.literalNames.contains name then
    let last ← stop.ppred
    return .ok (last, stop)
  else if name = known.holder && read bytes next == some '.' then
    let segmentAt ← skipTrivia bytes (next + 1)
    let segmentStop ← skipWhile Code.isNameChar bytes segmentAt
    let segment ← cut code segmentAt segmentStop
    if known.parameters.contains segment then
      let last ← (max segmentStop 1).ppred
      return .ok (last, segmentStop)
    else
      let found ← cut code i segmentStop
      return .error found
  else return .error name

mutual

/-- The first input from an offset on, given the offset of the byte that the last token ends with. -/
def inputFrom (known : KeyedInput) (code : List Char) (before : Option Nat) (i : Nat) :
    Option (Option (List Char)) := do
  if i < (encode code).length then
    let c ← read (encode code) i
    if Code.isSpace c then inputFrom known code before (i + 1)
    else if c = '/' ∧ read (encode code) (i + 1) = some '/' then
      let stop ← lineEnd (encode code) i
      if Ahead (encode code) i stop then inputFrom known code before stop else none
    else if c = '/' ∧ read (encode code) (i + 1) = some '*' then
      let stop? ← blockEnd (encode code) (i + 2)
      let stop := stop?.getD (encode code).length
      if Ahead (encode code) i stop then inputFrom known code before stop else none
    else if c = Code.backtick then templateFrom known code (i + 1)
    else if Code.isQuote c then
      let stop? ← quotedEnd c (encode code) (i + 1)
      let stop := stop?.getD (encode code).length
      let last ← stop.ppred
      if Ahead (encode code) i stop then inputFrom known code (some last) stop else none
    else if c.isDigit then
      let stop ← skipWhile Code.isNumberChar (encode code) i
      let last ← stop.ppred
      if Ahead (encode code) i stop then inputFrom known code (some last) stop else none
    else
      let stop ← skipWhile Code.isNameChar (encode code) i
      if stop = i then inputFrom known code (some i) (i + 1)
      else
        match ← nameAt known code before i stop with
        | .ok (last, next) =>
          if Ahead (encode code) i next then inputFrom known code (some last) next else none
        | .error found => return some found
  else return none
termination_by (code.length, (encode code).length - i, 0)
decreasing_by
  all_goals apply Prod.Lex.right
  all_goals apply Prod.Lex.left
  · omega
  · exact Ahead.sub_lt ‹_›
  · exact Ahead.sub_lt ‹_›
  · omega
  · exact Ahead.sub_lt ‹_›
  · exact Ahead.sub_lt ‹_›
  · omega
  · exact Ahead.sub_lt ‹_›

/-- The same from inside of a template on. -/
def templateFrom (known : KeyedInput) (code : List Char) (i : Nat) : Option (Option (List Char)) := do
  if i < (encode code).length then
    let c ← read (encode code) i
    if c = Code.backtick then templateEnd known code i
    else if c = '\\' then templateFrom known code (i + 2)
    else if c = '$' ∧ read (encode code) (i + 1) = some '\x7b' then
      let close? ← braceEnd (encode code) 0 (i + 1)
      let close := close?.getD (encode code).length
      let inner ← cut code (i + 2) (max close (i + 2))
      if inner.length < code.length ∧ Ahead (encode code) i close then
        match ← inputFrom known inner none 0 with
        | some found => return some found
        | none => templateFrom known code (close + 1)
      else none
    else templateFrom known code (i + 1)
  else templateEnd known code i
termination_by (code.length, (encode code).length - i, 2)
decreasing_by
  · apply Prod.Lex.right
    apply Prod.Lex.right
    decide
  · apply Prod.Lex.right
    apply Prod.Lex.left
    omega
  · apply Prod.Lex.left
    exact (‹_ ∧ Ahead _ _ _›).1
  · apply Prod.Lex.right
    apply Prod.Lex.left
    have hclose := (‹_ ∧ Ahead _ _ _›).2.sub_lt
    omega
  · apply Prod.Lex.right
    apply Prod.Lex.left
    omega
  · apply Prod.Lex.right
    apply Prod.Lex.right
    decide

/-- The same from the end of a template on. -/
def templateEnd (known : KeyedInput) (code : List Char) (i : Nat) : Option (Option (List Char)) := do
  let stop := min (i + 1) (encode code).length
  let last ← stop.ppred
  inputFrom known code (some last) stop
termination_by (code.length, (encode code).length - i, 1)
decreasing_by
  apply Prod.Lex.right
  by_cases hlt : i < (encode code).length
  · apply Prod.Lex.left
    omega
  · have hend : (encode code).length - min (i + 1) (encode code).length
        = (encode code).length - i := by omega
    rw [hend]
    apply Prod.Lex.right
    decide

end

/-! ## Rounds -/

section Rounds

variable {known : KeyedInput} {code : List Char} {before : Option Nat} {i : Nat} {c : Char}

/-- The search goes on behind a token, if that is ahead. -/
def goOn (known : KeyedInput) (code : List Char) (i stop : Nat) : Option (Option (List Char)) :=
  stop.ppred.bind fun last =>
    if Ahead (encode code) i stop then inputFrom known code (some last) stop else none

/-- Behind a token that gets ahead, the search goes on with its last byte in mind. -/
lemma goOn_of_ahead {last : Nat} (h : Ahead (encode code) i (last + 1)) :
    goOn known code i (last + 1) = inputFrom known code (some last) (last + 1) :=
  if_pos h

/-- At the end of the code there is no more request input. -/
lemma inputFrom_of_le (h : (encode code).length ≤ i) : inputFrom known code before i = some none := by
  rw [inputFrom]
  simp only [if_neg (Nat.not_lt.mpr h)]
  rfl

/-- One round of the search for request input, by the byte that is read. -/
lemma inputFrom_of_read (h : read (encode code) i = some c) :
    inputFrom known code before i
      = if Code.isSpace c then inputFrom known code before (i + 1)
        else if c = '/' ∧ read (encode code) (i + 1) = some '/' then
          (lineEnd (encode code) i).bind fun stop =>
            if Ahead (encode code) i stop then inputFrom known code before stop else none
        else if c = '/' ∧ read (encode code) (i + 1) = some '*' then
          (blockEnd (encode code) (i + 2)).bind fun stop? =>
            let stop := stop?.getD (encode code).length
            if Ahead (encode code) i stop then inputFrom known code before stop else none
        else if c = Code.backtick then templateFrom known code (i + 1)
        else if Code.isQuote c then
          (quotedEnd c (encode code) (i + 1)).bind fun stop? =>
            goOn known code i (stop?.getD (encode code).length)
        else if c.isDigit then
          (skipWhile Code.isNumberChar (encode code) i).bind (goOn known code i)
        else
          (skipWhile Code.isNameChar (encode code) i).bind fun stop =>
            if stop = i then inputFrom known code (some i) (i + 1)
            else (nameAt known code before i stop).bind fun
              | .ok (last, next) =>
                if Ahead (encode code) i next then inputFrom known code (some last) next else none
              | .error found => some (some found) := by
  rw [inputFrom]
  simp only [if_pos (lt_of_read h), h]
  rfl

/-- At the end of the code a template ends, too. -/
lemma templateFrom_of_le (h : (encode code).length ≤ i) :
    templateFrom known code i = templateEnd known code i := by
  rw [templateFrom]
  simp only [if_neg (Nat.not_lt.mpr h)]

/-- One round of the search in a template, by the byte that is read. -/
lemma templateFrom_of_read (h : read (encode code) i = some c) :
    templateFrom known code i
      = if c = Code.backtick then templateEnd known code i
        else if c = '\\' then templateFrom known code (i + 2)
        else if c = '$' ∧ read (encode code) (i + 1) = some '\x7b' then
          (braceEnd (encode code) 0 (i + 1)).bind fun close? =>
            let close := close?.getD (encode code).length
            (cut code (i + 2) (max close (i + 2))).bind fun inner =>
              if inner.length < code.length ∧ Ahead (encode code) i close then
                (inputFrom known inner none 0).bind fun
                  | some found => some (some found)
                  | none => templateFrom known code (close + 1)
              else none
        else templateFrom known code (i + 1) := by
  rw [templateFrom]
  simp only [if_pos (lt_of_read h), h]
  rfl

end Rounds

/-! ## What is in front -/

/-- The byte in front of a token is known from the character that it belongs to. -/
lemma contextAt_of_read {bytes : List UInt8} {p : Nat} {c : Char} (h : read bytes p = some c)
    (hc : c ≠ '.') : contextAt bytes (some p) = some (.afterMark c) := by
  unfold contextAt
  cases p with
  | zero =>
    dsimp only
    rw [h, Option.bind_eq_bind, Option.bind_some, if_neg hc]
    rfl
  | succ p =>
    obtain ⟨d, hread⟩ := exists_read (Nat.lt_of_succ_lt (lt_of_read h))
    dsimp only
    rw [h, hread, Option.bind_eq_bind, Option.bind_some, Option.bind_some, if_neg hc]
    rfl

/-- Behind two dots a name is no member. -/
lemma contextAt_dot_dot {bytes : List UInt8} {p : Nat} (h : read bytes (p + 1) = some '.')
    (h' : read bytes p = some '.') : contextAt bytes (some (p + 1)) = some .plain := by
  unfold contextAt
  dsimp only
  rw [h, h']
  rfl

/-- A dot makes a member of what follows, if there is no dot in front of it. -/
lemma contextAt_dot {bytes : List UInt8} {p : Nat} (h : read bytes p = some '.')
    (hno : ∀ q, p = q + 1 → read bytes q ≠ some '.') : contextAt bytes (some p) = some .member := by
  unfold contextAt
  cases p with
  | zero =>
    dsimp only
    rw [h]
    rfl
  | succ p =>
    obtain ⟨d, hread⟩ := exists_read (Nat.lt_of_succ_lt (lt_of_read h))
    have hd : d ≠ '.' := by
      rintro rfl
      exact hno p rfl hread
    dsimp only
    rw [h, hread, Option.bind_eq_bind, Option.bind_some, Option.bind_some, if_pos rfl, if_neg hd]
    rfl

/-- The state of the search in front of `rest`: the place, the context that the byte in front of the
token makes, and that a run of dots is not entered in its middle. -/
structure Stands (code : List Char) (before : Option Nat) (i : Nat) (rest : List Char)
    (context : Context) : Prop where
  place : At code i rest
  context : contextAt (encode code) before = some context
  no_dot : rest.head? = some '.' → ∀ p, i = p + 1 → read (encode code) p ≠ some '.'

section Steps

variable {known : KeyedInput} {code rest : List Char} {before : Option Nat} {i : Nat} {c : Char}
  {context : Context}

/-- The search starts in front of the code, with nothing before it. -/
lemma Stands.start (code : List Char) : Stands code none 0 code .plain :=
  ⟨At.start code, rfl, fun _ p hp => by simp at hp⟩

/-- Behind a character of ASCII that is no dot. -/
lemma Stands.behind {d : Char} (h : At code i (d :: rest)) (hd : isAscii d = true) (hdot : d ≠ '.') :
    Stands code (some i) (i + 1) rest (.afterMark d) := by
  refine ⟨next_ascii h hd, contextAt_of_read (h.read_ascii hd) hdot, ?_⟩
  rintro - p hp
  obtain rfl : i = p := by omega
  rw [h.read_ascii hd]
  simpa using hdot

/-- From here the search goes on in front of `after`, in the given context. -/
def Goes (known : KeyedInput) (code : List Char) (before : Option Nat) (i : Nat) (after : List Char)
    (context : Context) : Prop :=
  ∃ before' j, inputFrom known code before i = inputFrom known code before' j ∧
    Stands code before' j after context

/-- The search goes on behind the last character of a token, which is one of ASCII and no dot. -/
lemma Goes.behind {d : Char} {after : List Char} {stop : Nat} (token : List Char)
    (h : At code i (token ++ d :: after)) (hstop : At code stop after) (hd : isAscii d = true)
    (hdot : d ≠ '.') (hround : inputFrom known code before i = goOn known code i stop) :
    Goes known code before i after (.afterMark d) := by
  have hlast := h.append
  have heq : stop = i + Text.utf8Length token + 1 := (hstop.eq_iff (next_ascii hlast hd)).mpr rfl
  have hahead : Ahead (encode code) i stop := by
    apply ahead h hstop
    simp only [List.length_append, List.length_cons]
    omega
  subst heq
  exact ⟨_, _, hround.trans (goOn_of_ahead hahead), Stands.behind hlast hd hdot⟩

/-- Behind a mark that is neither an opening brace nor a comma, a name is an ordinary one. -/
lemma afterMark_eq_plain (hbrace : c ≠ '\x7b') (hcomma : c ≠ ',') : Context.afterMark c = .plain := by
  unfold Context.afterMark
  simp [hbrace, hcomma]

/-! ## One token -/

/-- Behind a blank, the search goes on in the same context. -/
lemma Stands.space (h : Stands code before i (c :: rest) context) (hc : Code.isSpace c = true) :
    Goes known code before i rest context := by
  have hascii := isAscii_of_isSpace hc
  have hdot : c ≠ '.' := by
    rintro rfl
    exact absurd hc (by decide)
  refine ⟨before, i + 1, ?_, next_ascii h.place hascii, h.context,
    (Stands.behind h.place hascii hdot).no_dot⟩
  rw [inputFrom_of_read (h.place.read_ascii hascii), if_pos hc]

/-- Behind a line comment, the search goes on in the same context. -/
lemma Stands.line {line : List Char} (h : Stands code before i ('/' :: '/' :: line) context) :
    Goes known code before i (Code.afterLine line) context := by
  obtain ⟨stop, hstop, hat⟩ := lineEnd_at h.place
  have hlt : (Code.afterLine line).length < ('/' :: '/' :: line).length :=
    Nat.lt_succ_of_lt (Nat.lt_succ_of_le (Code.length_afterLine_le line))
  refine ⟨before, stop, ?_, hat, h.context, ?_⟩
  · rw [inputFrom_of_read (h.place.read_ascii (by decide)), if_neg (by decide),
      if_pos ⟨rfl, (next_ascii h.place (by decide)).read_ascii (by decide)⟩, hstop,
      Option.bind_some, if_pos (ahead h.place hat hlt)]
  · -- the line ends with a line feed or with the text
    obtain ⟨body, -, ⟨-, hnil⟩ | ⟨after, -, hfeed⟩⟩ := Code.exists_line_body line
    · simp [hnil]
    · simp [hfeed]

/-- Behind a block comment, the search goes on in the same context. -/
lemma Stands.block {block : List Char} (h : Stands code before i ('/' :: '*' :: block) context) :
    Goes known code before i (Code.afterBlock block) context := by
  have hstar := next_ascii h.place (by decide)
  have hinside := next_ascii hstar (by decide)
  obtain ⟨stop?, hstop, hat⟩ := (blockEnd_at hinside).getD
  have hline : ¬ ('/' = '/' ∧ read (encode code) (i + 1) = some '/') := by
    rw [hstar.read_ascii (by decide)]
    decide
  have hlt : (Code.afterBlock block).length < ('/' :: '*' :: block).length :=
    Nat.lt_succ_of_lt (Nat.lt_succ_of_le (Code.length_afterBlock_le block))
  refine ⟨before, stop?.getD (encode code).length, ?_, hat, h.context, ?_⟩
  · rw [inputFrom_of_read (h.place.read_ascii (by decide)), if_neg (by decide), if_neg hline,
      if_pos ⟨rfl, hstar.read_ascii (by decide)⟩, hstop, Option.bind_some]
    exact if_pos (ahead h.place hat hlt)
  · unfold Code.afterBlock
    cases hafter : Code.afterBlock? block with
    | none => simp
    | some after =>
      -- the comment ends with a slash
      obtain ⟨body, -, hblock⟩ := Code.exists_block_body hafter
      have hcut : block = (body ++ ['*']) ++ '/' :: after := by rw [hblock]; simp
      rw [hcut] at hinside
      have hslash := hinside.append
      rw [hafter] at hat
      have heq := (hat.eq_iff (next_ascii hslash (by decide))).mpr rfl
      rw [heq]
      exact (Stands.behind hslash (by decide) (by decide)).no_dot

/-- What is no blank, no comment and no template. -/
lemma inputFrom_token (known : KeyedInput) (before : Option Nat) {d : Char}
    (h : At code i (c :: rest)) (hlead : Lead c d)
    (hread : read (encode code) i = some d) (hspace : Code.isSpace c = false)
    (hbacktick : c ≠ Code.backtick)
    (hcomment : c = '/' → rest.head? ≠ some '/' ∧ rest.head? ≠ some '*') :
    inputFrom known code before i
      = if Code.isQuote d then
          (quotedEnd d (encode code) (i + 1)).bind fun stop? =>
            goOn known code i (stop?.getD (encode code).length)
        else if d.isDigit then
          (skipWhile Code.isNumberChar (encode code) i).bind (goOn known code i)
        else
          (skipWhile Code.isNameChar (encode code) i).bind fun stop =>
            if stop = i then inputFrom known code (some i) (i + 1)
            else (nameAt known code before i stop).bind fun
              | .ok (last, next) =>
                if Ahead (encode code) i next then inputFrom known code (some last) next else none
              | .error found => some (some found) := by
  have hline : ¬ (d = '/' ∧ read (encode code) (i + 1) = some '/') := by
    apply hlead.not_pair h (by decide) (by decide)
    rintro tail hc rfl
    exact (hcomment hc).1 rfl
  have hblock : ¬ (d = '/' ∧ read (encode code) (i + 1) = some '*') := by
    apply hlead.not_pair h (by decide) (by decide)
    rintro tail hc rfl
    exact (hcomment hc).2 rfl
  rw [inputFrom_of_read hread, hlead.test coarse_isSpace, hspace, if_neg Bool.false_ne_true,
    if_neg hline, if_neg hblock, if_neg (mt (hlead.eq_iff (by decide)).mp hbacktick)]

/-- Behind a quoted text the search goes on; in one without an end, nothing is found. -/
lemma Stands.quoted (known : KeyedInput) (h : Stands code before i (c :: rest) context)
    (hquote : Code.isQuote c = true)
    (hbacktick : c ≠ Code.backtick) :
    (∀ after, Code.afterQuoted? c rest = some after → Goes known code before i after .plain) ∧
      (Code.afterQuoted? c rest = none → inputFrom known code before i = some none) := by
  have hascii := isAscii_of_isQuote hquote
  have hne : ∀ x, Code.isQuote x = false → c ≠ x := fun x hx => ne_of_isQuote hquote hx
  have hspace : Code.isSpace c = false := by
    simp only [Code.isQuote, Bool.or_eq_true, beq_iff_eq] at hquote
    rcases hquote with (rfl | rfl) | rfl <;> decide
  have hround := inputFrom_token known before h.place ⟨fun _ => rfl, fun hlong => hlong⟩
    (h.place.read_ascii hascii) hspace hbacktick (fun hslash => absurd hslash (hne _ (by decide)))
  rw [if_pos hquote] at hround
  obtain ⟨stop?, hstop, hrel⟩ := quotedEnd_at hquote (next_ascii h.place hascii)
  rw [hstop, Option.bind_some] at hround
  constructor
  · intro after hafter
    rw [hafter] at hrel
    cases hrel with
    | some hat =>
      obtain ⟨body, -, rfl⟩ := Code.exists_enclosed hafter
      have hgoes := Goes.behind (c :: body) h.place hat hascii (hne _ (by decide)) hround
      rwa [afterMark_eq_plain (hne _ (by decide)) (hne _ (by decide))] at hgoes
  · intro hafter
    rw [hafter] at hrel
    cases hrel with
    | none =>
      obtain ⟨last, hlast⟩ := Nat.exists_eq_succ_of_ne_zero
        (Nat.ne_of_gt (Nat.lt_of_le_of_lt (Nat.zero_le i) (lt_length h.place)))
      have hlt := lt_length h.place
      have hahead : Ahead (encode code) i (last + 1) := ⟨by omega, by omega⟩
      rw [hround, Option.getD_none, hlast, Nat.succ_eq_add_one, goOn_of_ahead hahead]
      exact inputFrom_of_le (by omega)

/-- A token that does not end with a dot makes no context. -/
lemma afterNumber_eq_plain {front : List Char} {d : Char} (hd : d ≠ '.') :
    Context.afterNumber (front ++ [d]) = .plain := by
  unfold Context.afterNumber
  rw [List.reverse_append]
  simp [hd]

/-- A number that ends with a dot is followed by a member, unless it ends with two. -/
lemma afterNumber_dot (front : List Char) (e : Char) :
    Context.afterNumber (front ++ [e, '.']) = if e = '.' then .plain else .member := by
  unfold Context.afterNumber
  rw [List.reverse_append]
  by_cases he : e = '.'
  · simp [he]
  · simp [he]

/-- The context behind a number is that of its last bytes. -/
lemma contextAt_number {front after : List Char} {d : Char} {stop : Nat}
    (hplace : At code i (front ++ d :: after)) (hstop : At code stop after)
    (hchars : ∀ e ∈ front ++ [d], Code.isNumberChar e = true) (hfirst : d = '.' → front ≠ []) :
    ∃ last, stop = last + 1 ∧
      contextAt (encode code) (some last) = some (.afterNumber (front ++ [d])) := by
  have hascii : ∀ e ∈ front ++ [d], isAscii e = true :=
    fun e he => isAscii_of_isNumberChar (hchars e he)
  have hlast := hplace.append
  have heq : stop = i + Text.utf8Length front + 1 :=
    (hstop.eq_iff (next_ascii hlast (hascii d (by simp)))).mpr rfl
  refine ⟨_, heq, ?_⟩
  by_cases hdot : d = '.'
  · subst hdot
    -- the number starts with a digit, so that there is a character in front of the dot
    obtain ⟨front, e, rfl⟩ := (List.eq_nil_or_concat front).resolve_left (hfirst rfl)
    rw [List.concat_eq_append] at hplace hascii hlast ⊢
    have he := hascii e (by simp)
    have hsecond : At code (i + Text.utf8Length front) (e :: '.' :: after) := by
      apply At.append
      simpa using hplace
    have hsame : i + Text.utf8Length (front ++ [e]) = i + Text.utf8Length front + 1 :=
      (hlast.eq_iff (next_ascii hsecond he)).mpr rfl
    rw [List.append_assoc, hsame]
    change _ = some (Context.afterNumber (front ++ [e, '.']))
    rw [afterNumber_dot]
    have hread := (next_ascii hsecond he).read_ascii (c := '.') (by decide)
    by_cases hdot : e = '.'
    · subst hdot
      rw [if_pos rfl]
      exact contextAt_dot_dot hread (hsecond.read_ascii he)
    · rw [if_neg hdot]
      apply contextAt_dot hread
      intro q hq
      obtain rfl : q = i + Text.utf8Length front := by omega
      rw [hsecond.read_ascii he]
      simpa using hdot
  · have hd := hchars d (by simp)
    rw [afterNumber_eq_plain hdot, contextAt_of_read (hlast.read_ascii (hascii d (by simp))) hdot,
      afterMark_eq_plain]
    · rintro rfl
      exact absurd hd (by decide)
    · rintro rfl
      exact absurd hd (by decide)

/-- Behind a number, the search goes on in the context that the number leaves. -/
lemma Stands.number (h : Stands code before i (c :: rest) context) (hc : c.isDigit = true) :
    Goes known code before i (rest.dropWhile Code.isNumberChar)
      (.afterNumber (c :: rest.takeWhile Code.isNumberChar)) := by
  have hname := Code.isNameChar_of_isDigit hc
  obtain ⟨hspace, hbacktick, hquote, hslash⟩ := Code.isNameChar_cases hname
  have hnumber : Code.isNumberChar c = true := by
    simp [Code.isNumberChar, Char.isAlphanum, hc]
  have hround := inputFrom_token known before h.place ⟨fun _ => rfl, fun hlong => hlong⟩
    (h.place.read_ascii (isAscii_of_isNameChar hname)) hspace hbacktick
    (fun heq => absurd heq hslash)
  obtain ⟨stop, hstop, hat⟩ := skipWhile_at coarse_isNumberChar h.place
  rw [List.dropWhile_cons_of_pos hnumber] at hat
  rw [if_neg (by simp [hquote]), if_pos hc, hstop, Option.bind_some] at hround
  have hplace : At code i ((c :: rest.takeWhile Code.isNumberChar)
      ++ rest.dropWhile Code.isNumberChar) := by
    rw [List.cons_append, List.takeWhile_append_dropWhile]
    exact h.place
  have hchars : ∀ d ∈ c :: rest.takeWhile Code.isNumberChar, Code.isNumberChar d = true := by
    intro d hd
    rcases List.mem_cons.mp hd with rfl | hd
    · exact hnumber
    · exact List.mem_takeWhile_imp hd
  obtain ⟨front, d, hlast⟩ := (List.eq_nil_or_concat
    (c :: rest.takeWhile Code.isNumberChar)).resolve_left (by simp)
  rw [List.concat_eq_append] at hlast
  have hfirst : d = '.' → front ≠ [] := by
    rintro rfl rfl
    obtain ⟨rfl, -⟩ := List.cons.inj hlast
    exact absurd hc (by decide)
  rw [hlast] at hplace hchars ⊢
  rw [List.append_assoc] at hplace
  obtain ⟨last, heq, hcontext⟩ := contextAt_number hplace hat hchars hfirst
  have hle := (List.dropWhile_sublist Code.isNumberChar (l := rest)).length_le
  have hahead := ahead h.place hat (Nat.lt_succ_of_le hle)
  refine ⟨some last, stop, ?_, hat, hcontext, ?_⟩
  · subst heq
    exact hround.trans (goOn_of_ahead hahead)
  · intro hhead
    exact absurd hhead (head?_dropWhile_ne (by decide) rest)

/-- A byte that is no part of another token is a token of its own. -/
lemma inputFrom_mark {d : Char} (hread : read (encode code) i = some d)
    (hspace : Code.isSpace d = false) (hquote : Code.isQuote d = false)
    (hname : Code.isNameChar d = false)
    (hline : ¬ (d = '/' ∧ read (encode code) (i + 1) = some '/'))
    (hblock : ¬ (d = '/' ∧ read (encode code) (i + 1) = some '*')) :
    inputFrom known code before i = inputFrom known code (some i) (i + 1) := by
  have hbacktick : d ≠ Code.backtick := by
    rintro rfl
    exact absurd hquote (by decide)
  have hrun : skipWhile Code.isNameChar (encode code) i = some i := by
    rw [skipWhile_of_read hread, hname]
    rfl
  rw [inputFrom_of_read hread, if_neg (by simp [hspace]), if_neg hline, if_neg hblock,
    if_neg hbacktick, if_neg (by simp [hquote]), if_neg (by simp [Code.isDigit_of_isNameChar hname]),
    hrun, Option.bind_some, if_pos rfl]

/-- A byte of a long character is passed over. -/
lemma inputFrom_long {d : Char} (hread : read (encode code) i = some d) (hd : isAscii d = false) :
    inputFrom known code before i = inputFrom known code (some i) (i + 1) := by
  have hslash : d ≠ '/' := ne_of_isAscii hd (by decide)
  apply inputFrom_mark hread
  · exact eq_false_of_ascii (fun _ => isAscii_of_isSpace) hd
  · exact eq_false_of_ascii (fun _ => isAscii_of_isQuote) hd
  · exact eq_false_of_ascii (fun _ => isAscii_of_isNameChar) hd
  · exact fun hline => hslash hline.1
  · exact fun hblock => hslash hblock.1

/-- A long character is passed over, byte by byte, and makes no context. -/
lemma Stands.long (h : Stands code before i (c :: rest) context) (hc : isAscii c = false) :
    Goes known code before i rest .plain := by
  obtain ⟨d, hread, hlead⟩ := read_cons h.place
  have hskip : inputFrom known code (some (i + 1 - 1)) (i + 1)
      = inputFrom known code (some (i + c.utf8Size - 1)) (i + c.utf8Size) := by
    apply skip h.place (f := fun j => inputFrom known code (some (j - 1)) j)
    intro _ j e he hlong
    exact inputFrom_long he hlong
  have hlast : i + c.utf8Size - 1 = i + (c.utf8Size - 1) := by
    have hpos := c.utf8Size_pos
    omega
  obtain ⟨e, he, hlong⟩ := h.place.read_high hc (Nat.sub_lt c.utf8Size_pos Nat.one_pos)
  have hdot : e ≠ '.' := ne_of_isAscii hlong (by decide)
  refine ⟨some (i + (c.utf8Size - 1)), i + c.utf8Size, ?_, h.place.next, ?_, ?_⟩
  · rw [inputFrom_long hread (hlead.high hc), ← hlast]
    exact hskip
  · rw [contextAt_of_read he hdot, afterMark_eq_plain]
    · exact ne_of_isAscii hlong (by decide)
    · exact ne_of_isAscii hlong (by decide)
  · rintro - p hp
    obtain rfl : p = i + (c.utf8Size - 1) := by omega
    rw [he]
    simpa using hdot

/-- Behind a mark, the search goes on in the context that the mark leaves. -/
lemma Stands.mark (h : Stands code before i (c :: rest) context) (hspace : Code.isSpace c = false)
    (hquote : Code.isQuote c = false) (hname : Code.isNameChar c = false) (hdot : c ≠ '.')
    (hcomment : c = '/' → rest.head? ≠ some '/' ∧ rest.head? ≠ some '*') :
    Goes known code before i rest (.afterMark c) := by
  cases hc : isAscii c with
  | true =>
    have hlead : Lead c c := ⟨fun _ => rfl, fun hlong => hlong⟩
    refine ⟨some i, i + 1, ?_, Stands.behind h.place hc hdot⟩
    apply inputFrom_mark (h.place.read_ascii hc) hspace hquote hname
    · apply hlead.not_pair h.place (by decide) (by decide)
      rintro tail hslash rfl
      exact (hcomment hslash).1 rfl
    · apply hlead.not_pair h.place (by decide) (by decide)
      rintro tail hslash rfl
      exact (hcomment hslash).2 rfl
  | false =>
    have hplain : Context.afterMark c = .plain :=
      afterMark_eq_plain (ne_of_isAscii hc (by decide)) (ne_of_isAscii hc (by decide))
    rw [hplain]
    exact h.long hc

/-- A dot is passed over, and kept in mind. -/
lemma inputFrom_dot (before : Option Nat) (h : At code i ('.' :: rest)) :
    inputFrom known code before i = inputFrom known code (some i) (i + 1) := by
  apply inputFrom_mark (h.read_ascii (by decide)) (by decide) (by decide) (by decide)
  · exact fun hline => absurd hline.1 (by decide)
  · exact fun hblock => absurd hblock.1 (by decide)

/-- A run of dots takes one round for each of them. The last one is the first, or there is another one
in front of it. -/
lemma inputFrom_dots (before : Option Nat) (h : At code i ('.' :: rest)) :
    ∃ last, inputFrom known code before i = inputFrom known code (some last) (last + 1) ∧
      At code last ('.' :: rest.dropWhile (· == '.')) ∧
      (last = i ∧ rest.dropWhile (· == '.') = rest ∨
        (rest.dropWhile (· == '.')).length < rest.length ∧
          ∃ p, last = p + 1 ∧ read (encode code) p = some '.') := by
  induction rest generalizing before i with
  | nil => exact ⟨i, inputFrom_dot before h, h, .inl ⟨rfl, rfl⟩⟩
  | cons d rest ih =>
    by_cases hd : d = '.'
    · subst hd
      obtain ⟨last, heq, hat, hlast⟩ := ih (some i) (next_ascii h (by decide))
      rw [List.dropWhile_cons_of_pos (by decide)]
      refine ⟨last, (inputFrom_dot before h).trans heq, hat, .inr ⟨?_, ?_⟩⟩
      · have hle := (List.dropWhile_sublist (· == '.') (l := rest)).length_le
        exact Nat.lt_succ_of_le hle
      · rcases hlast with ⟨rfl, -⟩ | ⟨-, hsecond⟩
        · exact ⟨i, rfl, h.read_ascii (by decide)⟩
        · exact hsecond
    · rw [List.dropWhile_cons_of_neg (by simpa using hd)]
      exact ⟨i, inputFrom_dot before h, h, .inl ⟨rfl, rfl⟩⟩

/-- Behind dots, the search goes on in the context that they leave. -/
lemma Stands.dots (h : Stands code before i ('.' :: rest) context) :
    Goes known code before i (rest.dropWhile (· == '.'))
      (.afterDots rest (rest.dropWhile (· == '.'))) := by
  obtain ⟨last, hround, hat, hlast⟩ := inputFrom_dots before h.place
  have hread := hat.read_ascii (by decide)
  refine ⟨some last, last + 1, hround, next_ascii hat (by decide), ?_, ?_⟩
  · unfold Context.afterDots
    rcases hlast with ⟨rfl, hone⟩ | ⟨hmore, p, rfl, hdot⟩
    · rw [hone, if_pos rfl]
      exact contextAt_dot hread (h.no_dot rfl)
    · rw [if_neg (Nat.ne_of_lt hmore)]
      exact contextAt_dot_dot hread hdot
  · intro hhead
    exact absurd hhead (head?_dropWhile_ne (by decide) rest)

/-! ## Names -/

/-- The search goes on behind a token of name characters as behind any token that makes no context. -/
lemma Stands.of_name {token after : List Char} {stop : Nat} (h : At code i (token ++ after))
    (hstop : At code stop after) (hne : token ≠ [])
    (hchars : ∀ c ∈ token, Code.isNameChar c = true) :
    ∃ last, stop = last + 1 ∧ Stands code (some last) stop after .plain := by
  obtain ⟨last, d, rfl, hd, hat⟩ :=
    h.exists_last hstop hne fun c hc => isAscii_of_isNameChar (hchars c hc)
  have hname := hchars d hd
  have hother : ∀ x, Code.isNameChar x = false → d ≠ x := by
    rintro x hx rfl
    rw [hname] at hx
    exact Bool.noConfusion hx
  have hbehind := Stands.behind hat (isAscii_of_isNameChar hname) (hother _ (by decide))
  rw [afterMark_eq_plain (hother _ (by decide)) (hother _ (by decide))] at hbehind
  exact ⟨last, rfl, hbehind⟩

/-- The read of a parameter ends behind the name behind the dot. -/
lemma segment_at {dotted : List Char} {next : Nat} (h : At code next ('.' :: dotted)) :
    ∃ start stop, skipTrivia (encode code) (next + 1) = some start ∧
      skipWhile Code.isNameChar (encode code) start = some stop ∧
      At code start (Code.skipTrivia dotted) ∧
      At code stop ((Code.skipTrivia dotted).dropWhile Code.isNameChar) := by
  obtain ⟨start, hstart, hat⟩ := skipTrivia_at (next_ascii h (by decide))
  obtain ⟨stop, hstop, hbehind⟩ := skipWhile_at coarse_isNameChar hat
  exact ⟨start, stop, hstart, hstop, hat, hbehind⟩

/-- **A name is judged as in the list:** it is passed, together with the parameter that is read from
it, or it is found. -/
lemma nameAt_at {token after : List Char} {stop : Nat} (hknown : [] ∉ known.parameters)
    (h : At code i (c :: (token ++ after))) (hstop : At code stop after)
    (hcontext : contextAt (encode code) before = some context) (hc : Code.isNameChar c = true)
    (hdigit : c.isDigit = false) (htoken : ∀ e ∈ token, Code.isNameChar e = true)
    (hend : ∀ e ∈ after.head?, Code.isNameChar e = false) :
    (∃ last next behind, nameAt known code before i stop = some (.ok (last, next)) ∧
      Stands code (some last) next behind .plain ∧ behind.length ≤ after.length ∧
      Code.requestInput? known context (c :: (token ++ after))
        = Code.requestInput? known .plain behind) ∨
    ∃ found, nameAt known code before i stop = some (.error found) ∧
      Code.requestInput? known context (c :: (token ++ after)) = some found := by
  have hname : ∀ e ∈ c :: token, Code.isNameChar e = true := by
    intro e he
    rcases List.mem_cons.mp he with rfl | he
    · exact hc
    · exact htoken e he
  have hcut : cut code i stop = some (c :: token) := At.cut h hstop
  obtain ⟨next, hnext, hat⟩ := skipTrivia_at hstop
  rw [Code.requestInput?_name_eq hc hdigit htoken hend]
  unfold nameAt
  simp only [hcut, hnext, hcontext, read_beq hat (x := ':') (by decide),
    read_beq hat (x := '.') (by decide), Option.bind_eq_bind, Option.bind_some]
  split
  · obtain ⟨last, rfl, hstands⟩ := Stands.of_name h hstop (List.cons_ne_nil c token) hname
    exact .inl ⟨last, last + 1, after, rfl, hstands, Nat.le_refl _, rfl⟩
  · split
    · rename_i hholder
      rw [Bool.and_eq_true, beq_iff_eq] at hholder
      obtain ⟨dotted, hdotted⟩ := List.head?_eq_some_iff.mp hholder.2
      rw [hdotted] at hat
      simp only [hdotted, List.drop_succ_cons, List.drop_zero]
      obtain ⟨start, segmentStop, hstart, hrun, hsegment, hbehind⟩ := segment_at hat
      have hplace : At code start ((Code.skipTrivia dotted).takeWhile Code.isNameChar
          ++ (Code.skipTrivia dotted).dropWhile Code.isNameChar) := by
        rw [List.takeWhile_append_dropWhile]
        exact hsegment
      have hle : ((Code.skipTrivia dotted).dropWhile Code.isNameChar).length ≤ after.length := by
        have hfirst := (Code.suffix_skipTrivia after).length_le
        have hsecond := (Code.suffix_skipTrivia dotted).length_le
        have hthird := (List.dropWhile_sublist Code.isNameChar (l := Code.skipTrivia dotted)).length_le
        rw [hdotted, List.length_cons] at hfirst
        omega
      simp only [hstart, hrun, hplace.cut hbehind, Option.bind_some]
      split
      · rename_i hparameter
        -- no parameter has an empty name, so that there is a byte in front of the offset
        have hne : (Code.skipTrivia dotted).takeWhile Code.isNameChar ≠ [] := by
          intro hempty
          rw [hempty] at hparameter
          exact hknown (by simpa using hparameter)
        obtain ⟨last, rfl, hstands⟩ := Stands.of_name hplace hbehind hne
          fun e he => List.mem_takeWhile_imp he
        refine .inl ⟨last, last + 1, _, ?_, hstands, hle, rfl⟩
        rw [Nat.max_eq_left (Nat.le_add_left 1 last)]
        rfl
      · refine .inr ⟨_, ?_, rfl⟩
        obtain ⟨found, hfound⟩ := h.between hbehind (by simp; omega)
        rw [hfound] at h ⊢
        rw [h.cut hbehind, Text.upTo, List.length_append, Nat.add_sub_cancel, List.take_left]
        rfl
    · exact .inr ⟨c :: token, rfl, rfl⟩

/-- A name is passed over, together with what belongs to it, or it is request input. -/
lemma Stands.name (hknown : [] ∉ known.parameters) (h : Stands code before i (c :: rest) context)
    (hc : Code.isNameChar c = true) (hdigit : c.isDigit = false) :
    (∃ behind, behind.length ≤ rest.length ∧ Goes known code before i behind .plain ∧
      Code.requestInput? known context (c :: rest) = Code.requestInput? known .plain behind) ∨
    ∃ found, inputFrom known code before i = some (some found) ∧
      Code.requestInput? known context (c :: rest) = some found := by
  obtain ⟨hspace, hbacktick, hquote, hslash⟩ := Code.isNameChar_cases hc
  have hascii := isAscii_of_isNameChar hc
  have hround := inputFrom_token known before h.place ⟨fun _ => rfl, fun hlong => hlong⟩
    (h.place.read_ascii hascii) hspace hbacktick (fun heq => absurd heq hslash)
  obtain ⟨stop, hstop, hat⟩ := skipWhile_at coarse_isNameChar h.place
  rw [List.dropWhile_cons_of_pos hc] at hat
  have hle := (List.dropWhile_sublist Code.isNameChar (l := rest)).length_le
  have hne : stop ≠ i := by
    intro heq
    have hsame := (hat.eq_iff h.place).mp heq
    rw [hsame, List.length_cons] at hle
    omega
  rw [if_neg (by simp [hquote]), if_neg (by simp [hdigit]), hstop, Option.bind_some, if_neg hne]
    at hround
  have hplace := h.place
  have hsplit : rest.takeWhile Code.isNameChar ++ rest.dropWhile Code.isNameChar = rest :=
    List.takeWhile_append_dropWhile
  have hend : ∀ e ∈ (rest.dropWhile Code.isNameChar).head?, Code.isNameChar e = false := by
    intro e he
    rw [Bool.eq_false_iff]
    intro hname
    exact head?_dropWhile_ne hname rest he
  rw [← hsplit] at hplace
  have hname := nameAt_at hknown hplace hat h.context hc hdigit
    (fun e he => List.mem_takeWhile_imp he) hend
  rw [hsplit] at hname
  rcases hname with ⟨last, next, behind, hpassed, hstands, hshort, heq⟩ | ⟨found, hfound, heq⟩
  · have hlt : behind.length < (c :: rest).length := Nat.lt_succ_of_le (Nat.le_trans hshort hle)
    refine .inl ⟨behind, Nat.le_of_lt_succ hlt, ⟨some last, next, ?_, hstands⟩, heq⟩
    rw [hround, hpassed]
    exact if_pos (ahead h.place hstands.place hlt)
  · refine .inr ⟨found, ?_, heq⟩
    rw [hround, hfound]
    rfl

/-! ## Templates -/

/-- Behind the backtick that closes a template, the search goes on in code. -/
lemma templateEnd_close (h : At code i (Code.backtick :: rest)) :
    templateEnd known code i = inputFrom known code (some i) (i + 1) := by
  rw [templateEnd, Nat.min_eq_left (lt_length h)]
  rfl

/-- A template that is not closed ends with the text. -/
lemma templateFrom_of_end (hpos : 0 < i) (h : At code i rest) {j : Nat}
    (hj : (encode code).length ≤ j) : templateFrom known code j = some none := by
  have hlength := h.add_length
  obtain ⟨last, hlast⟩ := Nat.exists_eq_succ_of_ne_zero
    (show (encode code).length ≠ 0 by omega)
  rw [templateFrom_of_le hj, templateEnd, Nat.min_eq_right (Nat.le_succ_of_le hj), hlast]
  exact inputFrom_of_le (by omega)

/-- A byte of a long character is passed over in a template. -/
lemma templateFrom_long {d : Char} (hread : read (encode code) i = some d)
    (hd : isAscii d = false) : templateFrom known code i = templateFrom known code (i + 1) := by
  rw [templateFrom_of_read hread, if_neg (ne_of_isAscii hd (by decide)),
    if_neg (ne_of_isAscii hd (by decide)), if_neg]
  exact fun hopen => ne_of_isAscii hd (by decide) hopen.1

/-- The bytes of a long character, or of a short one behind a backslash, are passed over. -/
lemma templateFrom_skip (h : At code i (c :: rest)) :
    templateFrom known code (i + 1) = templateFrom known code (i + c.utf8Size) := by
  apply skip h
  intro _ j d hread hd
  exact templateFrom_long hread hd

/-- A character that means nothing in a template is passed over. -/
lemma templateFrom_char (h : At code i (c :: rest)) (hquote : c ≠ Code.backtick)
    (hescape : c ≠ '\\') (hopen : c = '$' → rest.head? ≠ some '\x7b') :
    templateFrom known code i = templateFrom known code (i + c.utf8Size) := by
  obtain ⟨d, hread, hlead⟩ := read_cons h
  have hinner : ¬ (d = '$' ∧ read (encode code) (i + 1) = some '\x7b') := by
    apply hlead.not_pair h (by decide) (by decide)
    rintro tail hc rfl
    exact hopen hc rfl
  rw [templateFrom_of_read hread, if_neg (mt (hlead.eq_iff (by decide)).mp hquote),
    if_neg (mt (hlead.eq_iff (by decide)).mp hescape), if_neg hinner]
  exact templateFrom_skip h

/-- The round at an interpolation. -/
lemma templateFrom_open (known : KeyedInput) {inner : List Char}
    (h : At code i ('$' :: '\x7b' :: inner)) :
    ∃ close?, Option.Rel (At code) close? ((Code.afterBrace? 0 inner).map ('\x7d' :: ·)) ∧
      templateFrom known code i =
        let close := close?.getD (encode code).length
        (cut code (i + 2) (max close (i + 2))).bind fun inner =>
          if inner.length < code.length ∧ Ahead (encode code) i close then
            (inputFrom known inner none 0).bind fun
              | some found => some (some found)
              | none => templateFrom known code (close + 1)
          else none := by
  have hbrace := next_ascii h (by decide)
  have hfinds : Finds (At code) (braceEnd (encode code) 1 (i + 1 + 1))
      ((Code.afterBrace? 0 inner).map ('\x7d' :: ·)) := braceEnd_at (next_ascii hbrace (by decide))
  obtain ⟨close?, hclose, hrel⟩ := hfinds
  refine ⟨close?, hrel, ?_⟩
  rw [templateFrom_of_read (h.read_ascii (by decide)), if_neg (by decide), if_neg (by decide),
    if_pos ⟨rfl, hbrace.read_ascii (by decide)⟩, braceEnd_of_read (hbrace.read_ascii (by decide)),
    if_pos rfl, hclose, Option.bind_some]

/-! ## All tokens -/

/-- The searches agree with those in the list on all rests of fewer than `n` characters. -/
structure Agrees (known : KeyedInput) (n : Nat) : Prop where
  input : ∀ {code rest before i context}, rest.length < n → Stands code before i rest context →
    inputFrom known code before i = some (Code.requestInput? known context rest)
  template : ∀ {code rest i}, rest.length < n → At code i rest → 0 < i →
    templateFrom known code i = some (Code.templateInput? known rest)

/-- Where the search goes on with less than the given length, it agrees with the one on lists. -/
lemma Agrees.goes {n : Nat} (h : Agrees known n) (hgoes : Goes known code before i rest context)
    (hlt : rest.length < n) :
    inputFrom known code before i = some (Code.requestInput? known context rest) := by
  obtain ⟨before, j, hround, hstands⟩ := hgoes
  rw [hround]
  exact h.input hlt hstands

/-- **One more character of code.** -/
lemma Agrees.input_cons (hknown : [] ∉ known.parameters) (h : Agrees known (c :: rest).length)
    (hstands : Stands code before i (c :: rest) context) :
    inputFrom known code before i = some (Code.requestInput? known context (c :: rest)) := by
  cases hspace : Code.isSpace c with
  | true =>
    rw [Code.requestInput?_space hspace]
    exact h.goes (hstands.space hspace) (by simp)
  | false =>
  by_cases hline : c = '/' ∧ rest.head? = some '/'
  · obtain ⟨rfl, hhead⟩ := hline
    obtain ⟨line, rfl⟩ := List.head?_eq_some_iff.mp hhead
    have hle := Code.length_afterLine_le line
    rw [Code.requestInput?_line]
    exact h.goes hstands.line (by simp only [List.length_cons]; omega)
  by_cases hblock : c = '/' ∧ rest.head? = some '*'
  · obtain ⟨rfl, hhead⟩ := hblock
    obtain ⟨block, rfl⟩ := List.head?_eq_some_iff.mp hhead
    have hle := Code.length_afterBlock_le block
    rw [Code.requestInput?_block]
    exact h.goes hstands.block (by simp only [List.length_cons]; omega)
  by_cases hbacktick : c = Code.backtick
  · subst hbacktick
    rw [Code.requestInput?_template, inputFrom_of_read (hstands.place.read_ascii (by decide)),
      if_neg (by decide), if_neg (fun heq => absurd heq.1 (by decide)),
      if_neg (fun heq => absurd heq.1 (by decide)), if_pos rfl]
    exact h.template (by simp) (next_ascii hstands.place (by decide)) (Nat.succ_pos i)
  cases hquote : Code.isQuote c with
  | true =>
    have hmarks : c = '\x27' ∨ c = '\x22' := by
      simpa [Code.isQuote, hbacktick] using hquote
    obtain ⟨hclosed, hunclosed⟩ := hstands.quoted known hquote hbacktick
    rw [Code.requestInput?_quote hmarks]
    cases hafter : Code.afterQuoted? c rest with
    | none => exact hunclosed hafter
    | some after =>
      have hlt := Code.length_afterQuoted?_lt hafter
      exact h.goes (hclosed after hafter) (Nat.lt_succ_of_lt hlt)
  | false =>
  cases hname : Code.isNameChar c with
  | true =>
    cases hdigit : c.isDigit with
    | true =>
      have hle := (List.dropWhile_sublist Code.isNumberChar (l := rest)).length_le
      rw [Code.requestInput?_number hdigit]
      exact h.goes (hstands.number hdigit) (Nat.lt_succ_of_le hle)
    | false =>
      rcases hstands.name hknown hname hdigit with ⟨behind, hle, hgoes, heq⟩ | ⟨found, hfound, heq⟩
      · rw [heq]
        exact h.goes hgoes (Nat.lt_succ_of_le hle)
      · rw [heq, hfound]
  | false =>
  by_cases hdot : c = '.'
  · subst hdot
    have hle := (List.dropWhile_sublist (· == '.') (l := rest)).length_le
    rw [Code.requestInput?_dot]
    exact h.goes hstands.dots (Nat.lt_succ_of_le hle)
  · have hcomment : c = '/' → rest.head? ≠ some '/' ∧ rest.head? ≠ some '*' :=
      fun hslash => ⟨fun hhead => hline ⟨hslash, hhead⟩, fun hhead => hblock ⟨hslash, hhead⟩⟩
    rw [Code.requestInput?_mark hspace hquote hname hdot hcomment]
    exact h.goes (hstands.mark hspace hquote hname hdot hcomment) (by simp)

/-- Behind a backslash, one character of a template is passed over in both searches. -/
lemma Agrees.template_escape (h : Agrees known ('\\' :: rest).length) (hat : At code i ('\\' :: rest))
    (hpos : 0 < i) :
    templateFrom known code i = some (Code.templateInput? known ('\\' :: rest)) := by
  have hhidden := next_ascii hat (by decide)
  rw [templateFrom_of_read (hat.read_ascii (by decide)), if_neg (by decide), if_pos rfl]
  cases rest with
  | nil =>
    have hnone : Code.templateInput? known ['\\'] = none := by
      rw [Code.templateInput?, if_neg (by decide), Code.templateInput?]
      · intro e after _ hnil
        exact absurd hnil (by simp)
      · intro inner hslash
        exact absurd hslash (by decide)
    rw [hnone]
    exact templateFrom_of_end hpos hat (Nat.le_succ_of_le (Nat.le_of_eq hhidden.length_eq.symm))
  | cons c after =>
    rw [templateFrom_skip hhidden, Code.templateInput?]
    exact h.template (by simp only [List.length_cons]; omega) hhidden.next (by omega)

/-- The code of an interpolation is cut out of the text and searched by itself. -/
lemma Agrees.template_open {inner : List Char} (h : Agrees known ('$' :: '\x7b' :: inner).length)
    (hat : At code i ('$' :: '\x7b' :: inner)) (hpos : 0 < i) :
    templateFrom known code i = some (Code.templateInput? known ('$' :: '\x7b' :: inner)) := by
  have hinner : At code (i + 2) inner := next_ascii (next_ascii hat (by decide)) (by decide)
  obtain ⟨close?, hrel, hround⟩ := templateFrom_open known hat
  have hcode : inner.length + 2 ≤ code.length := by
    obtain ⟨front, rfl, -⟩ := hat
    simp
  rw [hround]
  dsimp only
  cases hafter : Code.afterBrace? 0 inner with
  | none =>
    rw [hafter] at hrel
    cases hrel with
    | none =>
      have hle : i + 2 ≤ (encode code).length := by
        have hlength := hinner.add_length
        omega
      have hcut : cut code (i + 2) (encode code).length = some inner := by
        rw [← List.append_nil inner] at hinner
        exact hinner.cut (At.stop code)
      have hgoes : inner.length < code.length ∧ Ahead (encode code) i (encode code).length :=
        ⟨by omega, lt_length hat, Nat.le_refl _⟩
      rw [Code.templateInput?_unclosed hafter, Option.getD_none, Nat.max_eq_left hle, hcut,
        Option.bind_some, if_pos hgoes, h.input (by simp only [List.length_cons]; omega) (Stands.start inner),
        Option.bind_some]
      cases Code.requestInput? known .plain inner with
      | none => exact templateFrom_of_end hpos hat (Nat.le_succ _)
      | some found => rfl
  | some after =>
    rw [hafter] at hrel
    cases hrel with
    | some hplace =>
      rename_i close
      have hclose : At code close ('\x7d' :: after) := hplace
      have hlt := Code.length_afterBrace?_lt hafter
      obtain ⟨body, rfl⟩ := hinner.between hclose hlt
      have hle : i + 2 ≤ close := by
        rw [(hclose.eq_iff hinner.append).mpr rfl]
        exact Nat.le_add_right _ _
      have hlength : ('$' :: '\x7b' :: (body ++ '\x7d' :: after)).length
          = body.length + after.length + 3 := by
        simp only [List.length_cons, List.length_append]
        omega
      have hahead : Ahead (encode code) i close := by
        apply ahead hat hclose
        rw [hlength, List.length_cons]
        omega
      have hgoes : body.length < code.length ∧ Ahead (encode code) i close := by
        rw [List.length_append] at hcode
        exact ⟨by omega, hahead⟩
      rw [Code.templateInput?_closed hafter, Code.interpolated_append, Option.getD_some,
        Nat.max_eq_left hle, hinner.cut hclose, Option.bind_some, if_pos hgoes,
        h.input (by omega) (Stands.start body), Option.bind_some]
      cases Code.requestInput? known .plain body with
      | none =>
        exact h.template (by omega) (next_ascii hclose (by decide)) (Nat.succ_pos close)
      | some found => rfl

/-- **One more character of a template.** -/
lemma Agrees.template_cons (h : Agrees known (c :: rest).length) (hat : At code i (c :: rest))
    (hpos : 0 < i) : templateFrom known code i = some (Code.templateInput? known (c :: rest)) := by
  by_cases hescape : c = '\\'
  · subst hescape
    exact h.template_escape hat hpos
  by_cases hopen : c = '$' ∧ rest.head? = some '\x7b'
  · obtain ⟨rfl, hhead⟩ := hopen
    obtain ⟨inner, rfl⟩ := List.head?_eq_some_iff.mp hhead
    exact h.template_open hat hpos
  by_cases hquote : c = Code.backtick
  · subst hquote
    have hstands := Stands.behind hat (by decide) (by decide)
    rw [afterMark_eq_plain (by decide) (by decide)] at hstands
    rw [templateFrom_of_read (hat.read_ascii (by decide)), if_pos rfl, templateEnd_close hat,
      Code.templateInput?_close]
    exact h.input (by simp) hstands
  · have hmark : c = '$' → rest.head? ≠ some '\x7b' := fun hc hhead => hopen ⟨hc, hhead⟩
    rw [templateFrom_char hat hquote hescape hmark, Code.templateInput?_char hquote hescape hmark]
    exact h.template (by simp) hat.next (Nat.add_pos_left hpos _)

/-- **The searches agree,** by the number of characters that are left. -/
lemma agrees (hknown : [] ∉ known.parameters) (n : Nat) : Agrees known n := by
  induction n with
  | zero => exact ⟨fun hlt => absurd hlt (Nat.not_lt_zero _), fun hlt => absurd hlt (Nat.not_lt_zero _)⟩
  | succ n ih =>
    have hshorter : ∀ {m}, m < n + 1 → Agrees known m := fun hm =>
      ⟨fun hlt => ih.input (by omega), fun hlt => ih.template (by omega)⟩
    constructor
    · intro code rest before i context hlt hstands
      cases rest with
      | nil =>
        rw [inputFrom_of_le (Nat.le_of_eq hstands.place.length_eq.symm), Code.requestInput?]
      | cons c rest => exact (hshorter hlt).input_cons hknown hstands
    · intro code rest i hlt hat hpos
      cases rest with
      | nil =>
        rw [templateFrom_of_end hpos hat (Nat.le_of_eq hat.length_eq.symm), Code.templateInput?]
      | cons c rest => exact (hshorter hlt).template_cons hat hpos

end Steps

/-- **The search by offsets has a value, and it is the name that the search in the list finds.** -/
lemma inputFrom_eq {known : KeyedInput} (hknown : [] ∉ known.parameters) (code : List Char) :
    inputFrom known code none 0 = some (Code.requestInput? known .plain code) :=
  (agrees hknown (code.length + 1)).input (Nat.lt_succ_self _) (Stands.start code)

end CachedRoutes.Bytes
