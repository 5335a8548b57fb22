import CachedRoutes.Proofs.Code.Literal

/-!
# Literals and where they end

The values of literals are computed from texts that are known to be literals. Here is how literals are
cut out of a text in the first place: where one ends, what its characters are, and which code stands
in its interpolations.

* **Interpolations.** Their code ends with the brace that closes them. Quoted texts, templates and
  braces inside of the code have to be closed before that (`ClosesAll`), so that the end is where it
  is for one reason only (`interpolated?_eq_some_iff`). A slash may divide, or open a comment or a
  pattern, and a backslash may escape anything: code with one of these is not read. The names of
  parameters have neither.
* **Elements** (`element?`): a template is read one element at a time. An element is the closing
  backtick, a character or the code of an interpolation; a carriage return in front of a line feed is
  nothing by itself.
* **Literals** (`Lexes`): a text starts with at most one literal (`Lexes.unique`).
* **Values** (`Lexes.literalValue?_eq`): a text that is one literal has the value of that literal, since
  the reader that gives values cuts templates into the same parts (`Cooks.template?_eq`).
-/

namespace CachedRoutes.Code

/-! ## Interpolations -/

/-- What can be open at a place in code. -/
inductive Opening where
  | brace
  /-- A text in the given quotes. -/
  | quoted (quote : Char)
  /-- A template, and whether its last character is a dollar sign. -/
  | template (dollar : Bool)
  deriving DecidableEq, Repr

/-- What is open behind a character, given what is open in front of it, innermost first. There is no
answer for a brace that closes nothing, for a line that ends in quotes, and for slashes. -/
def opensAfter? (opened : List Opening) (c : Char) : Option (List Opening) :=
  if c = '/' || c = '\\' then none
  else
    match opened with
    | .quoted quote :: outer =>
      if c = quote then some outer else if c = '\n' || c = '\r' then none else some opened
    | .template dollar :: outer =>
      if c = backtick then some outer
      else if dollar && c == '\x7b' then some (.brace :: .template false :: outer)
      else some (.template (c == '$') :: outer)
    | [] => if c = '\x7d' then none else some (opensInCode [] c)
    | .brace :: outer => if c = '\x7d' then some outer else some (opensInCode opened c)
where
  /-- What a character opens in code. -/
  opensInCode (opened : List Opening) (c : Char) : List Opening :=
    if c = '\x7b' then .brace :: opened
    else if c = '\x27' || c = '\x22' then .quoted c :: opened
    else if c = backtick then .template false :: opened
    else opened

/-- The code closes all that it opens. -/
def ClosesAll (code : List Char) : Prop :=
  code.foldlM opensAfter? [] = some []

instance (code : List Char) : Decidable (ClosesAll code) :=
  inferInstanceAs (Decidable (_ = _))

/-- The code of an interpolation, and what follows the brace that closes it, given the text from the
code on and what is open in front of it. -/
def interpolated? : List Opening → List Char → Option (List Char × List Char)
  | _, [] => none
  | opened, c :: rest =>
    if opened = [] ∧ c = '\x7d' then some ([], rest)
    else
      (opensAfter? opened c).bind fun inner =>
        (interpolated? inner rest).map fun found => (c :: found.1, found.2)

/-- Code closes all if its first character can be read and the rest closes what is open behind it.
-/
lemma foldlM_opensAfter?_cons {opened : List Opening} {c : Char} {code : List Char} :
    (c :: code).foldlM opensAfter? opened = some []
      ↔ ∃ inner, opensAfter? opened c = some inner ∧ code.foldlM opensAfter? inner = some [] := by
  rw [List.foldlM_cons]
  exact Option.bind_eq_some_iff

/-- The code of an interpolation ends with the brace in front of which all is closed. -/
lemma interpolated?_eq_some_iff {opened : List Opening} {text code after : List Char} :
    interpolated? opened text = some (code, after)
      ↔ text = code ++ '\x7d' :: after ∧ code.foldlM opensAfter? opened = some [] := by
  constructor
  · intro h
    induction text generalizing opened code with
    | nil => simp [interpolated?] at h
    | cons c rest ih =>
      rw [interpolated?] at h
      split at h
      · rename_i hclose
        obtain ⟨rfl, rfl⟩ := hclose
        obtain ⟨rfl, rfl⟩ := Prod.mk.inj (Option.some.inj h)
        exact ⟨rfl, rfl⟩
      · obtain ⟨inner, hinner, hrest⟩ := Option.bind_eq_some_iff.mp h
        obtain ⟨⟨found, behind⟩, hfound, heq⟩ := Option.map_eq_some_iff.mp hrest
        obtain ⟨rfl, rfl⟩ := Prod.mk.inj heq
        obtain ⟨rfl, hfold⟩ := ih hfound
        exact ⟨rfl, foldlM_opensAfter?_cons.mpr ⟨inner, hinner, hfold⟩⟩
  · rintro ⟨rfl, hfold⟩
    induction code generalizing opened with
    | nil =>
      obtain rfl : opened = [] := Option.some.inj hfold
      simp [interpolated?]
    | cons c code ih =>
      obtain ⟨inner, hinner, hfold⟩ := foldlM_opensAfter?_cons.mp hfold
      -- where nothing is open, the brace would be an end, and not a part of the code
      have hopen : ¬ (opened = [] ∧ c = '\x7d') := by
        rintro ⟨rfl, rfl⟩
        simp [opensAfter?] at hinner
      rw [List.cons_append, interpolated?, if_neg hopen, hinner, Option.bind_some, ih hfold]
      rfl

/-- Characters that neither open nor close anything in code. -/
def isPlainCode (c : Char) : Bool :=
  isInner c && c != '/' && c != '\\'

/-- Code of plain characters closes all that it opens, which is nothing. -/
lemma closesAll_of_plain {code : List Char} (h : ∀ c ∈ code, isPlainCode c = true) :
    ClosesAll code := by
  induction code with
  | nil => rfl
  | cons c code ih =>
    obtain ⟨hc, hcode⟩ := List.forall_mem_cons.mp h
    refine foldlM_opensAfter?_cons.mpr ⟨[], ?_, ih hcode⟩
    simp only [isPlainCode, isInner, isQuote, Bool.and_eq_true, Bool.not_eq_true',
      Bool.or_eq_false_iff, bne_iff_ne, beq_eq_false_iff_ne] at hc
    simp [opensAfter?, opensAfter?.opensInCode, hc]

/-! ## Elements of templates -/

/-- What a template is made of, up to its end. -/
inductive Element where
  | close
  | char (c : Char)
  /-- A carriage return in front of a line feed, which is no character by itself. -/
  | silent
  /-- The code of an interpolation. -/
  | code (text : List Char)
  deriving DecidableEq, Repr

/-- The first element of a text in a template, and what follows it. -/
def element? : List Char → Option (Element × List Char)
  | [] => none
  | c :: rest =>
    if c = backtick then some (.close, rest)
    else if c = '\\' then (rest.head?.bind escaped?).map fun e => (.char e, rest.tail)
    else if c = '$' ∧ rest.head? = some '\x7b' then
      (interpolated? [] rest.tail).map fun found => (.code found.1, found.2)
    else if c = '\r' then some (if rest.head? = some '\n' then .silent else .char '\n', rest)
    else some (.char c, rest)

section Elements

variable {rest : List Char}

/-- A backtick closes the template. -/
lemma element?_close : element? (backtick :: rest) = some (.close, rest) := by
  rw [element?, if_pos rfl]

/-- A character behind a backslash is the one that it stands for. -/
lemma element?_escape {c e : Char} (h : escaped? c = some e) :
    element? ('\\' :: c :: rest) = some (.char e, rest) := by
  rw [element?, if_neg (by decide), if_pos rfl]
  simp [h]

/-- Closed code between braces is an interpolation. -/
lemma element?_code {code : List Char} (h : ClosesAll code) :
    element? ('$' :: '\x7b' :: (code ++ '\x7d' :: rest)) = some (.code code, rest) := by
  have hcode := interpolated?_eq_some_iff.mpr ⟨(rfl : code ++ '\x7d' :: rest = _), h⟩
  rw [element?, if_neg (by decide), if_neg (by decide), if_pos (by simp), List.tail_cons, hcode]
  rfl

/-- A carriage return is a line feed, or nothing in front of one. -/
lemma element?_return :
    element? ('\r' :: rest)
      = some (if rest.head? = some '\n' then .silent else .char '\n', rest) := by
  rw [element?, if_neg (by decide), if_neg (by decide), if_neg (by simp), if_pos rfl]

/-- A character that opens and closes nothing. -/
lemma element?_char {c : Char} (hquote : c ≠ backtick) (hescape : c ≠ '\\')
    (hopen : c = '$' → rest.head? ≠ some '\x7b') (hreturn : c ≠ '\r') :
    element? (c :: rest) = some (.char c, rest) := by
  have hcode : ¬ (c = '$' ∧ rest.head? = some '\x7b') := fun h => hopen h.1 h.2
  rw [element?, if_neg hquote, if_neg hescape, if_neg hcode, if_neg hreturn]

/-- **How an element stands in the text,** for each kind of element. -/
lemma element?_cases {text : List Char} {element : Element}
    (h : element? text = some (element, rest)) :
    (text = backtick :: rest ∧ element = .close) ∨
    (∃ c e, text = '\\' :: c :: rest ∧ escaped? c = some e ∧ element = .char e) ∨
    (∃ code, text = '$' :: '\x7b' :: (code ++ '\x7d' :: rest) ∧ ClosesAll code ∧
      element = .code code) ∨
    (text = '\r' :: rest ∧ element = if rest.head? = some '\n' then .silent else .char '\n') ∨
    ∃ c, text = c :: rest ∧ c ≠ backtick ∧ c ≠ '\\' ∧
      (c = '$' → rest.head? ≠ some '\x7b') ∧ c ≠ '\r' ∧ element = .char c := by
  cases text with
  | nil => simp [element?] at h
  | cons c text =>
    rw [element?] at h
    split at h
    · rename_i hclose
      obtain ⟨rfl, rfl⟩ := Prod.mk.inj (Option.some.inj h)
      exact .inl ⟨by rw [hclose], rfl⟩
    · rename_i hquote
      split at h
      · rename_i hescape
        obtain ⟨e, he, heq⟩ := Option.map_eq_some_iff.mp h
        obtain ⟨d, hhead, he⟩ := Option.bind_eq_some_iff.mp he
        obtain ⟨tail, rfl⟩ := List.head?_eq_some_iff.mp hhead
        obtain ⟨rfl, rfl⟩ := Prod.mk.inj heq
        exact .inr (.inl ⟨d, e, by rw [hescape]; rfl, he, rfl⟩)
      · rename_i hescape
        split at h
        · rename_i hopen
          obtain ⟨rfl, hhead⟩ := hopen
          obtain ⟨tail, rfl⟩ := List.head?_eq_some_iff.mp hhead
          obtain ⟨⟨code, behind⟩, hfound, heq⟩ := Option.map_eq_some_iff.mp h
          obtain ⟨rfl, rfl⟩ := Prod.mk.inj heq
          obtain ⟨hcode, hcloses⟩ := interpolated?_eq_some_iff.mp hfound
          refine .inr (.inr (.inl ⟨code, ?_, hcloses, rfl⟩))
          rw [← hcode, List.tail_cons]
        · rename_i hopen
          split at h
          · rename_i hreturn
            obtain ⟨rfl, rfl⟩ := Prod.mk.inj (Option.some.inj h)
            exact .inr (.inr (.inr (.inl ⟨by rw [hreturn], rfl⟩)))
          · rename_i hreturn
            obtain ⟨rfl, rfl⟩ := Prod.mk.inj (Option.some.inj h)
            exact .inr (.inr (.inr (.inr
              ⟨c, rfl, hquote, hescape, fun hc hhead => hopen ⟨hc, hhead⟩, hreturn, rfl⟩)))

/-- Only closed code is an element. -/
lemma closesAll_of_element? {text code : List Char} (h : element? text = some (.code code, rest)) :
    ClosesAll code := by
  rcases element?_cases h with ⟨-, heq⟩ | ⟨c, e, -, -, heq⟩ | ⟨found, -, hcloses, heq⟩ | ⟨-, heq⟩ |
    ⟨c, -, -, -, -, -, heq⟩
  · exact Element.noConfusion heq
  · exact Element.noConfusion heq
  · rwa [Element.code.inj heq]
  · split at heq <;> exact Element.noConfusion heq
  · exact Element.noConfusion heq

end Elements

/-! ## Quoted texts -/

/-- A character behind a backslash stands for what it escapes. -/
lemma quoted?_escape {quote c e : Char} (rest : List Char) (h : escaped? c = some e) :
    quoted? quote ('\\' :: c :: rest)
      = (quoted? quote rest).map fun read => (e :: read.1, read.2) := by
  rw [quoted?, h]
  cases quoted? quote rest <;> rfl

/-- A character without a backslash closes the quoted text, breaks it, or stands for itself. -/
lemma quoted?_cons {quote c : Char} (rest : List Char) (h : c ≠ '\\') :
    quoted? quote (c :: rest)
      = if c = quote then some ([], rest)
        else if c = '\n' || c = '\r' then none
        else (quoted? quote rest).map fun read => (c :: read.1, read.2) := by
  rw [quoted?]
  · rintro rfl
    exact absurd rfl h
  · rintro _ _ rfl
    exact absurd rfl h

/-! ## Literals -/

/-- A template as it is read. -/
structure Template where
  /-- The characters in front of the first interpolation. -/
  head : List Char
  /-- The code of each interpolation, and the characters behind it. -/
  rest : List (List Char × List Char)
  deriving DecidableEq, Repr

/-- The template with an element in front. -/
def Template.add (template : Template) : Element → Template
  | .char c => ⟨c :: template.head, template.rest⟩
  | .code code => ⟨[], (code, template.head) :: template.rest⟩
  | .silent | .close => template

/-- The text starts with the template, given from behind its opening backtick on, and the rest
follows. -/
inductive Cooks : List Char → Template → List Char → Prop where
  | close {text after : List Char} (h : element? text = some (.close, after)) :
      Cooks text ⟨[], []⟩ after
  | add {text rest after : List Char} {element : Element} {template : Template}
      (h : element? text = some (element, rest)) (hopen : element ≠ .close)
      (hrest : Cooks rest template after) : Cooks text (template.add element) after

/-- A literal as it is read. -/
inductive Literal where
  | quoted (value : List Char)
  | template (template : Template)
  deriving DecidableEq, Repr

/-- The text starts with the literal, and the rest follows. -/
inductive Lexes : List Char → Literal → List Char → Prop where
  | quoted {quote : Char} {text value after : List Char} (hquote : quote = '\x27' ∨ quote = '\x22')
      (h : quoted? quote text = some (value, after)) : Lexes (quote :: text) (.quoted value) after
  | template {text after : List Char} {template : Template} (h : Cooks text template after) :
      Lexes (backtick :: text) (.template template) after

/-- A text starts with at most one template, since it starts with at most one element. -/
lemma Cooks.unique {text after behind : List Char} {template other : Template}
    (h : Cooks text template after) (hother : Cooks text other behind) :
    template = other ∧ after = behind := by
  induction h generalizing other behind with
  | close helement =>
    cases hother with
    | close hclose =>
      obtain ⟨-, rfl⟩ := Prod.mk.inj (Option.some.inj (helement.symm.trans hclose))
      exact ⟨rfl, rfl⟩
    | add hadd hopen _ =>
      obtain ⟨rfl, -⟩ := Prod.mk.inj (Option.some.inj (helement.symm.trans hadd))
      exact absurd rfl hopen
  | add helement hopen _ ih =>
    cases hother with
    | close hclose =>
      obtain ⟨rfl, -⟩ := Prod.mk.inj (Option.some.inj (helement.symm.trans hclose))
      exact absurd rfl hopen
    | add hadd _ hrest =>
      obtain ⟨rfl, rfl⟩ := Prod.mk.inj (Option.some.inj (helement.symm.trans hadd))
      obtain ⟨rfl, rfl⟩ := ih hrest
      exact ⟨rfl, rfl⟩

/-- **A text starts with at most one literal.** -/
lemma Lexes.unique {text after behind : List Char} {literal other : Literal}
    (h : Lexes text literal after) (hother : Lexes text other behind) :
    literal = other ∧ after = behind := by
  cases h with
  | quoted hquote hvalue =>
    cases hother with
    | quoted _ hfound =>
      obtain ⟨rfl, rfl⟩ := Prod.mk.inj (Option.some.inj (hvalue.symm.trans hfound))
      exact ⟨rfl, rfl⟩
    | template _ => exact absurd hquote (by decide)
  | template hcooks =>
    cases hother with
    | quoted hquote _ => exact absurd hquote (by decide)
    | template hfound =>
      obtain ⟨rfl, rfl⟩ := hcooks.unique hfound
      exact ⟨rfl, rfl⟩

/-- The text is the literal, from its start to its end. -/
def IsLiteral (text : List Char) (literal : Literal) : Prop :=
  ∀ found after, Lexes text found after ↔ found = literal ∧ after = []

/-- A text is a literal if it can be read as one up to its end, since it can be read in one way
only. -/
lemma isLiteral_iff {text : List Char} {literal : Literal} :
    IsLiteral text literal ↔ Lexes text literal [] := by
  constructor
  · intro h
    exact (h literal []).mpr ⟨rfl, rfl⟩
  · intro h found after
    refine ⟨fun hfound => hfound.unique h, ?_⟩
    rintro ⟨rfl, rfl⟩
    exact h

/-- The code of every interpolation is closed. -/
lemma Cooks.closesAll {text after : List Char} {template : Template} (h : Cooks text template after) :
    ∀ piece ∈ template.rest, ClosesAll piece.1 := by
  induction h with
  | close => simp
  | @add _ _ _ element template helement _ _ ih =>
    cases element with
    | code code => exact List.forall_mem_cons.mpr ⟨closesAll_of_element? helement, ih⟩
    | close | char _ | silent => exact ih

/-- The code of every interpolation of a literal is closed. -/
lemma Lexes.closesAll {text after : List Char} {template : Template}
    (h : Lexes text (.template template) after) : ∀ piece ∈ template.rest, ClosesAll piece.1 := by
  cases h with
  | template hcooks => exact hcooks.closesAll

/-! ## Parts and values -/

/-- The parts of a template, one after the other. -/
def Template.parts (template : Template) : List Part :=
  template.head.map .char
    ++ template.rest.flatMap fun piece => .code piece.1 :: piece.2.map .char

/-- The two readers of templates differ on code alone: `template?` ends it with the first brace. **On
templates without braces in their code they agree.** -/
lemma Cooks.template?_eq {text after : List Char} {template : Template} (h : Cooks text template after)
    (hbrace : ∀ piece ∈ template.rest, '\x7d' ∉ piece.1) :
    template? text = some (template.parts, after) := by
  induction h with
  | close helement =>
    rcases element?_cases helement with ⟨rfl, -⟩ | ⟨c, e, -, -, heq⟩ | ⟨code, -, -, heq⟩ | ⟨-, heq⟩ |
      ⟨c, -, -, -, -, -, heq⟩
    · exact template?_close
    · exact Element.noConfusion heq
    · exact Element.noConfusion heq
    · split at heq <;> exact Element.noConfusion heq
    · exact Element.noConfusion heq
  | add helement hopen _ ih =>
    rcases element?_cases helement with ⟨-, rfl⟩ | ⟨c, e, rfl, he, rfl⟩ | ⟨code, rfl, -, rfl⟩ |
      ⟨rfl, rfl⟩ | ⟨c, rfl, hquote, hescape, hdollar, hreturn, rfl⟩
    · exact absurd rfl hopen
    · exact template?_escape he (ih hbrace)
    · obtain ⟨hcode, hothers⟩ := List.forall_mem_cons.mp hbrace
      exact template?_code hcode (ih hothers)
    · -- a carriage return is silent or a line feed, in both readers for the same reason
      split at hbrace
      · rename_i hfeed
        rw [template?_return (ih hbrace), if_pos hfeed, if_pos hfeed]
        rfl
      · rename_i hfeed
        rw [template?_return (ih hbrace), if_neg hfeed, if_neg hfeed]
        rfl
    · exact template?_char hquote hescape hdollar hreturn (ih hbrace)

/-- The value of a literal, given the values of code. -/
def Literal.value? (run : List Char → Option (List Char)) : Literal → Option (List Char)
  | .quoted value => some value
  | .template cooked => templateValue? run cooked.parts

/-- **The value of a text that is one literal is the value of that literal.** -/
lemma Lexes.literalValue?_eq {text : List Char} {literal : Literal} (h : Lexes text literal [])
    (hbrace : ∀ template, literal = .template template → ∀ piece ∈ template.rest, '\x7d' ∉ piece.1)
    (run : List Char → Option (List Char)) : literalValue? run text = literal.value? run := by
  cases h with
  | quoted hquote hvalue =>
    rcases hquote with rfl | rfl
    · rw [literalValue?, if_neg (by decide), if_pos (by decide), hvalue]
      rfl
    · rw [literalValue?, if_neg (by decide), if_pos (by decide), hvalue]
      rfl
  | template hcooks =>
    rw [literalValue?, if_pos rfl, hcooks.template?_eq (hbrace _ rfl)]
    rfl

end CachedRoutes.Code
