import CachedRoutes.Policy.Catalog
import CachedRoutes.Query.Key
import CachedRoutes.Proofs.Code.Bracket
import CachedRoutes.Proofs.Code.Template
import CachedRoutes.Proofs.Route.Segment

/-!
# What key literals say

A key is written as a literal, and a literal has to be read as what was meant: the base, and the reads
of the route's parameters with dashes in front of them.

* **Quotes.** `quoted?_escapeQuoted`: between single quotes every base is read back, except if a line
  ends in it. Then there is no literal at all.
* **Backticks.** `escaped_escapeTemplate`: how a base stands in a template. `cooks_escapeTemplate`: in a
  template every base is read back, but with a line feed for every carriage return.
  `cooks_interpolations`: each parameter is read back if it closes what it opens, which all identifiers
  do.
* **Keys.** `keyLiteral_denotes_iff` puts this together, and `keyLiteral_misread` has a key for each
  way in which the literal says something else.
-/

namespace CachedRoutes.Query

/-! ## Meaning -/

/-- A dash, if a parameter follows. -/
def dashBefore : List (List Char) → List Char
  | [] => []
  | _ :: _ => ['-']

/-- The reads of parameters, each with what stands behind it. -/
def memberReads (params : List Char) : List (List Char) → List (List Char × List Char)
  | [] => []
  | parameter :: parameters =>
    (params ++ '.' :: parameter, dashBefore parameters) :: memberReads params parameters

/-- What the key of a route is meant to be: its base, or a template of the base and the reads of the
parameters, with dashes between them. -/
def keyMeaning (params base : List Char) (parameters : List (List Char)) : Code.Literal :=
  if parameters = [] then .quoted base
  else .template ⟨base ++ ['-'], memberReads params parameters⟩

/-- Each parameter is read. -/
lemma mem_memberReads (params : List Char) {parameter : List Char} {parameters : List (List Char)}
    (h : parameter ∈ parameters) :
    ∃ behind, (params ++ '.' :: parameter, behind) ∈ memberReads params parameters := by
  induction parameters with
  | nil => simp at h
  | cons first parameters ih =>
    rcases List.mem_cons.mp h with rfl | hmem
    · exact ⟨dashBefore parameters, List.mem_cons_self⟩
    · obtain ⟨behind, hbehind⟩ := ih hmem
      exact ⟨behind, List.mem_cons_of_mem _ hbehind⟩

/-! ## Quotes -/

/-- Between single quotes the base is read back, unless a line ends in it. -/
lemma quoted?_escapeQuoted (base rest : List Char) :
    Code.quoted? '\x27' (escapeQuoted base ++ '\x27' :: rest)
      = if '\n' ∈ base ∨ '\r' ∈ base then none else some (base, rest) := by
  induction base with
  | nil =>
    rw [escapeQuoted, List.nil_append, Code.quoted?_cons rest (by decide), if_pos rfl]
    simp
  | cons c base ih =>
    rw [escapeQuoted]
    split
    · rename_i hc
      simp only [Bool.or_eq_true, decide_eq_true_eq] at hc
      have hescaped : Code.escaped? c = some c := by
        rcases hc with rfl | rfl <;> decide
      have hsame : '\n' ∈ c :: base ∨ '\r' ∈ c :: base ↔ '\n' ∈ base ∨ '\r' ∈ base := by
        rcases hc with rfl | rfl <;> simp
      simp only [List.cons_append, Code.quoted?_escape _ hescaped, ih, hsame]
      split <;> rfl
    · rename_i hc
      simp only [Bool.or_eq_true, decide_eq_true_eq, not_or] at hc
      rw [List.cons_append, Code.quoted?_cons _ hc.1, if_neg hc.2, ih]
      by_cases hend : c = '\n' ∨ c = '\r'
      · have hmem : '\n' ∈ c :: base ∨ '\r' ∈ c :: base := by
          rcases hend with rfl | rfl <;> simp
        rw [if_pos (by simpa using hend), if_pos hmem]
      · have hsame : '\n' ∈ c :: base ∨ '\r' ∈ c :: base ↔ '\n' ∈ base ∨ '\r' ∈ base := by
          rw [not_or] at hend
          simp [Ne.symm hend.1, Ne.symm hend.2]
        rw [if_neg (by simpa using hend)]
        simp only [hsame]
        split <;> rfl

/-! ## Backticks -/

/-- A key with parameters is a template. -/
lemma keyLiteral_cons (params base parameter : List Char) (others : List (List Char)) :
    keyLiteral params base (parameter :: others)
      = Code.backtick :: (escapeTemplate base
        ++ ((parameter :: others).flatMap (interpolation params) ++ [Code.backtick])) := by
  simp [keyLiteral, Code.backtick]

/-- A dash stands in front of each interpolation. -/
lemma interpolations_cons (params parameter : List Char) (parameters : List (List Char)) :
    (parameter :: parameters).flatMap (interpolation params) ++ [Code.backtick]
      = '-' :: '$' :: '\x7b' :: (params ++ '.' :: parameter ++ '\x7d'
        :: (parameters.flatMap (interpolation params) ++ [Code.backtick])) := by
  simp [interpolation]

/-- Escaping starts with a backslash, or with the first character itself. -/
lemma head?_escapeTemplate {c : Char} (hc : c ≠ '\\') (base rest : List Char)
    (hrest : rest.head? ≠ some c) (h : (escapeTemplate base ++ rest).head? = some c) :
    base.head? = some c := by
  fun_cases escapeTemplate base with
  | case1 => exact absurd h hrest
  | case2 tail => simp [escapeTemplate, Ne.symm hc] at h
  | case3 e tail hopen he =>
    rw [escapeTemplate, if_pos he] at h
    · simp [Ne.symm hc] at h
    · exact hopen
  | case4 e tail hopen he =>
    rw [escapeTemplate, if_neg he] at h
    · simpa using h
    · exact hopen

/-- How a base stands in a template, in front of the rest: a character is escaped, or it stands for
itself and is neither a backtick, a backslash nor the start of an interpolation. -/
inductive Escaped (rest : List Char) : List Char → List Char → Prop where
  | nil : Escaped rest [] rest
  | escape {c : Char} {base text : List Char} (hescaped : Code.escaped? c = some c)
      (h : Escaped rest base text) : Escaped rest (c :: base) ('\\' :: c :: text)
  | char {c : Char} {base text : List Char} (hquote : c ≠ Code.backtick) (hescape : c ≠ '\\')
      (hopen : c = '$' → text.head? ≠ some '\x7b')
      (hfeed : text.head? = some '\n' ↔ base.head? = some '\n')
      (h : Escaped rest base text) : Escaped rest (c :: base) (c :: text)

/-- Escaping puts no line feed in front of a base and takes none away from there. -/
lemma head?_escapeTemplate_feed {rest : List Char} (hfeed : rest.head? ≠ some '\n')
    (base : List Char) :
    (escapeTemplate base ++ rest).head? = some '\n' ↔ base.head? = some '\n' := by
  refine ⟨head?_escapeTemplate (by decide) base rest hfeed, ?_⟩
  intro hhead
  obtain ⟨tail, rfl⟩ := List.head?_eq_some_iff.mp hhead
  simp [escapeTemplate]

/-- **An escaped base stands in a template as it should.** All readers of templates go along this
relation, one character at a time. -/
lemma escaped_escapeTemplate {rest : List Char} (hopen : rest.head? ≠ some '\x7b')
    (hfeed : rest.head? ≠ some '\n') (base : List Char) :
    Escaped rest base (escapeTemplate base ++ rest) := by
  fun_induction escapeTemplate base with
  | case1 => exact .nil
  | case2 tail ih =>
    have hbrace : Escaped rest ('\x7b' :: tail) ('\x7b' :: (escapeTemplate tail ++ rest)) :=
      .char (by decide) (by decide) (by simp) (head?_escapeTemplate_feed hfeed tail) ih
    exact .escape (by decide) hbrace
  | case3 c tail hbrace hc ih =>
    simp only [Bool.or_eq_true, decide_eq_true_eq] at hc
    refine .escape ?_ ih
    rcases hc with rfl | rfl <;> decide
  | case4 c tail hbrace hc ih =>
    simp only [Bool.or_eq_true, decide_eq_true_eq, not_or] at hc
    refine .char hc.2 hc.1 ?_ (head?_escapeTemplate_feed hfeed tail) ih
    rintro rfl hhead
    obtain ⟨tail', rfl⟩ := List.head?_eq_some_iff.mp
      (head?_escapeTemplate (by decide) tail rest hopen hhead)
    exact hbrace tail' rfl rfl

/-- A character that is escaped ends no line. -/
lemma lineFeeds_of_escaped {c : Char} (h : Code.escaped? c = some c) (base : List Char) :
    Code.lineFeeds (c :: base) = c :: Code.lineFeeds base := by
  have hreturn : c ≠ '\r' := by
    rintro rfl
    exact absurd h (by decide)
  rw [Code.lineFeeds, if_neg hreturn]

/-- In a template the base is read back, except for the ends of its lines. -/
lemma cooks_escapeTemplate {base rest after : List Char} {template : Code.Template}
    (hopen : rest.head? ≠ some '\x7b') (hfeed : rest.head? ≠ some '\n')
    (h : Code.Cooks rest template after) :
    Code.Cooks (escapeTemplate base ++ rest)
      ⟨Code.lineFeeds base ++ template.head, template.rest⟩ after := by
  have hescaped := escaped_escapeTemplate hopen hfeed base
  generalize escapeTemplate base ++ rest = text at hescaped ⊢
  induction hescaped with
  | nil => exact h
  | escape hc _ ih =>
    rw [lineFeeds_of_escaped hc]
    exact .add (Code.element?_escape hc) (by simp) ih
  | @char c base text hquote hescape hbrace hends _ ih =>
    by_cases hreturn : c = '\r'
    · subst hreturn
      have hread := @Code.element?_return text
      rw [Code.lineFeeds, if_pos rfl]
      by_cases hhead : base.head? = some '\n'
      · rw [if_pos (hends.mpr hhead)] at hread
        rw [if_pos hhead]
        exact .add hread (by simp) ih
      · rw [if_neg (mt hends.mp hhead)] at hread
        rw [if_neg hhead]
        exact .add hread (by simp) ih
    · rw [Code.lineFeeds, if_neg hreturn]
      exact .add (Code.element?_char hquote hescape hbrace hreturn) (by simp) ih

/-- The interpolations are read as reads of the parameters, with dashes between them. -/
lemma cooks_interpolations {params : List Char} {parameters : List (List Char)}
    (h : ∀ parameter ∈ parameters, Code.ClosesAll (params ++ '.' :: parameter)) :
    Code.Cooks (parameters.flatMap (interpolation params) ++ [Code.backtick])
      ⟨dashBefore parameters, memberReads params parameters⟩ [] := by
  induction parameters with
  | nil => exact .close Code.element?_close
  | cons parameter parameters ih =>
    obtain ⟨hparameter, hparameters⟩ := List.forall_mem_cons.mp h
    have hcode := Code.Cooks.add (Code.element?_code hparameter) (by simp) (ih hparameters)
    rw [interpolations_cons]
    exact .add (Code.element?_char (by decide) (by decide) (by simp) (by decide)) (by simp) hcode

/-- **The template of a key**, if the parameters close what they open. -/
lemma lexes_keyLiteral {params : List Char} (base : List Char) {parameters : List (List Char)}
    (hne : parameters ≠ [])
    (h : ∀ parameter ∈ parameters, Code.ClosesAll (params ++ '.' :: parameter)) :
    Code.Lexes (keyLiteral params base parameters)
      (.template ⟨Code.lineFeeds base ++ ['-'], memberReads params parameters⟩) [] := by
  obtain ⟨parameter, others, rfl⟩ := List.exists_cons_of_ne_nil hne
  have hhead : ((parameter :: others).flatMap (interpolation params) ++ [Code.backtick]).head?
      = some '-' := by
    rw [interpolations_cons, List.head?_cons]
  have hcooks := @cooks_escapeTemplate base _ _ _ (by rw [hhead]; decide) (by rw [hhead]; decide)
    (cooks_interpolations h)
  rw [keyLiteral_cons]
  exact .template hcooks

/-- No carriage return is left where the ends of lines are line feeds. -/
lemma return_notMem_lineFeeds (text : List Char) : '\r' ∉ Code.lineFeeds text := by
  fun_induction Code.lineFeeds text with
  | case1 => simp
  | case2 => assumption
  | case3 rest hfeed ih => simpa using ih
  | case4 c rest hc ih => simpa [Ne.symm hc] using ih

/-- Texts without carriage returns keep the ends of their lines. -/
lemma lineFeeds_eq_self_iff {text : List Char} : Code.lineFeeds text = text ↔ '\r' ∉ text := by
  constructor
  · intro h
    rw [← h]
    exact return_notMem_lineFeeds text
  · intro h
    induction text with
    | nil => rfl
    | cons c rest ih =>
      rw [List.mem_cons, not_or] at h
      obtain ⟨hc, hrest⟩ := h
      rw [Code.lineFeeds, if_neg (Ne.symm hc), ih hrest]

/-- Names open nothing, so that the read of a member closes what it opens. -/
lemma closesAll_member {params parameter : List Char} (hparams : Code.isIdentifierName params = true)
    (hparameter : Code.isIdentifierName parameter = true) :
    Code.ClosesAll (params ++ '.' :: parameter) := by
  have hname : ∀ name, Code.isIdentifierName name = true → ∀ c ∈ name, Code.isPlainCode c = true := by
    intro name h c hc
    simp only [Code.isIdentifierName, Bool.and_eq_true] at h
    have hchar : Code.isIdentifierChar c = true := List.all_eq_true.mp h.1.2 c hc
    simp only [Code.isPlainCode, Code.isInner_of_isIdentifierChar hchar, Bool.true_and,
      Bool.and_eq_true, bne_iff_ne]
    constructor <;> rintro rfl <;> exact absurd hchar (by decide)
  apply Code.closesAll_of_plain
  intro c hc
  rcases List.mem_append.mp hc with hc | hc
  · exact hname params hparams c hc
  · rcases List.mem_cons.mp hc with rfl | hc
    · decide
    · exact hname parameter hparameter c hc

/-! ## Keys -/

/-- The key of a route without parameters is read as its base or not at all. -/
lemma lexes_keyLiteral_nil {params base after : List Char} {literal : Code.Literal} :
    Code.Lexes (keyLiteral params base []) literal after
      ↔ ('\n' ∉ base ∧ '\r' ∉ base) ∧ literal = .quoted base ∧ after = [] := by
  have hliteral : keyLiteral params base [] = '\x27' :: (escapeQuoted base ++ ['\x27']) := by
    simp [keyLiteral]
  have hread := quoted?_escapeQuoted base []
  rw [hliteral]
  constructor
  · intro h
    cases h with
    | quoted _ hvalue =>
      rw [hread] at hvalue
      split at hvalue
      · simp at hvalue
      · rename_i hends
        obtain ⟨rfl, rfl⟩ := Prod.mk.inj (Option.some.inj hvalue)
        exact ⟨not_or.mp hends, rfl, rfl⟩
  · rintro ⟨hends, rfl, rfl⟩
    refine .quoted (.inl rfl) ?_
    rw [hread, if_neg (not_or.mpr hends)]

/-- The key of a route with parameters is read as what it means exactly if its base has no carriage
return and the parameters close what they open. -/
lemma lexes_keyMeaning_iff {params base : List Char} {parameters : List (List Char)}
    (hne : parameters ≠ []) :
    Code.Lexes (keyLiteral params base parameters) (keyMeaning params base parameters) []
      ↔ '\r' ∉ base ∧ ∀ parameter ∈ parameters, Code.ClosesAll (params ++ '.' :: parameter) := by
  rw [keyMeaning, if_neg hne]
  constructor
  · intro h
    have hcloses : ∀ parameter ∈ parameters, Code.ClosesAll (params ++ '.' :: parameter) := by
      intro parameter hmem
      obtain ⟨behind, hbehind⟩ := mem_memberReads params hmem
      exact h.closesAll _ hbehind
    have hsame := (h.unique (lexes_keyLiteral base hne hcloses)).1
    simp only [Code.Literal.template.injEq, Code.Template.mk.injEq, and_true] at hsame
    exact ⟨lineFeeds_eq_self_iff.mp (List.append_cancel_right hsame).symm, hcloses⟩
  · rintro ⟨hreturn, hcloses⟩
    have h := lexes_keyLiteral base hne hcloses
    rwa [lineFeeds_eq_self_iff.mpr hreturn] at h

/-- **What key literals say.** For any base and any parameters, the key is one literal from its start
to its end and means what it should exactly if no line ends in a base in quotes, no carriage return
stands in a base in backticks, and every parameter closes what it opens. Identifiers do, and the code
that is not read, with a slash or a backslash in it, is not that of a route's parameter. Otherwise, if
no parameter is to blame, a base in quotes is no literal, and a base in backticks is read with line
feeds. -/
theorem keyLiteral_denotes_iff (params base : List Char) (parameters : List (List Char)) :
    (Code.IsLiteral (keyLiteral params base parameters) (keyMeaning params base parameters)
      ↔ if parameters = [] then '\n' ∉ base ∧ '\r' ∉ base
        else '\r' ∉ base ∧ ∀ parameter ∈ parameters, Code.ClosesAll (params ++ '.' :: parameter)) ∧
    (∀ parameter, Code.isIdentifierName params = true → Code.isIdentifierName parameter = true →
      Code.ClosesAll (params ++ '.' :: parameter)) ∧
    (∀ text, ∀ parameter ∈ (Route.ofText text).parameters, '/' ∉ parameter ∧ '\\' ∉ parameter) ∧
    (parameters = [] → '\n' ∈ base ∨ '\r' ∈ base →
      ∀ literal after, ¬ Code.Lexes (keyLiteral params base parameters) literal after) ∧
    (parameters ≠ [] → (∀ parameter ∈ parameters, Code.ClosesAll (params ++ '.' :: parameter)) →
      Code.IsLiteral (keyLiteral params base parameters)
        (.template ⟨Code.lineFeeds base ++ ['-'], memberReads params parameters⟩)) := by
  refine ⟨?_, fun _ => closesAll_member, ?_, ?_, ?_⟩
  · rw [Code.isLiteral_iff]
    split
    · rename_i hnil
      subst hnil
      rw [lexes_keyLiteral_nil, keyMeaning, if_pos rfl]
      exact and_iff_left ⟨rfl, rfl⟩
    · rename_i hne
      exact lexes_keyMeaning_iff hne
  · intro text parameter hmem
    exact Route.slashes_notMem_of_mem_parameters hmem
  · rintro rfl hends literal after h
    obtain ⟨⟨hfeed, hreturn⟩, -⟩ := lexes_keyLiteral_nil.mp h
    exact hends.elim hfeed hreturn
  · intro hne hcloses
    exact Code.isLiteral_iff.mpr (lexes_keyLiteral base hne hcloses)

/-- **Keys that say something else.** A line feed in a base is accepted, and the key without
parameters is no literal. With a parameter, a carriage return becomes a line feed. The brace of a
parameter ends its interpolation. -/
theorem keyLiteral_misread :
    let params := "params".toList
    Catalog.entryFlaw? (⟨"app/api/users/route.ts"⟩, ⟨.users, 300, "a\nb"⟩) = none ∧
      (∀ literal after, ¬ Code.Lexes (keyLiteral params "a\nb".toList []) literal after) ∧
      Code.IsLiteral (keyLiteral params "a\rb".toList ["id".toList])
        (.template ⟨"a\nb-".toList, [("params.id".toList, [])]⟩) ∧
      Route.parameters ⟨"app/api/[a\x7db]/route.ts"⟩ = ["a\x7db".toList] ∧
      ¬ Code.IsLiteral (keyLiteral params "x".toList ["a\x7db".toList])
        (keyMeaning params "x".toList ["a\x7db".toList]) := by
  intro params
  refine ⟨by decide +kernel, ?_, ?_, by decide +kernel, ?_⟩
  · intro literal after h
    exact absurd (lexes_keyLiteral_nil.mp h).1.1 (by decide)
  · have hid : ∀ name ∈ ["id".toList], Code.ClosesAll (params ++ '.' :: name) := by decide
    exact Code.isLiteral_iff.mpr (lexes_keyLiteral "a\rb".toList (by simp) hid)
  · rw [Code.isLiteral_iff, lexes_keyMeaning_iff (by simp)]
    decide

end CachedRoutes.Query
