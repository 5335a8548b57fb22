import CachedRoutes.Proofs.Query.KeyLiteral

/-!
# What cache keys tell apart

The key of a route is written as a literal, and its value decides whether two requests share an
entry of the cache. Here is that value, for all values of the route's parameters.

* **Values.** `keyValue?_eq_some`: behind the base there are the values of the parameters, with a
  dash in front of each.
* **Dashes.** `eq_of_dashed`: values without dashes can be read back, and `dashed_collision`: others
  cannot.
* **Requests.** `keys_distinguish_iff`: the keys of a route tell all requests apart exactly if the
  route has at most one parameter. `keys_collide` has two requests with the same key.
-/

namespace CachedRoutes.Query

/-! ## Values -/

/-- The key of a request, given the values of the route's parameters. -/
def keyValue? (params base : List Char) (parameters : List (List Char))
    (values : List Char → List Char) : Option (List Char) :=
  Code.literalValue? (Code.memberValue? params values) (keyLiteral params base parameters)

/-- The values of the parameters, with a dash in front of each. -/
def dashed (parameters : List (List Char)) (values : List Char → List Char) : List Char :=
  parameters.flatMap fun parameter => '-' :: values parameter

/-- A dash stands in front of each value. -/
lemma dashed_cons (parameter : List Char) (parameters : List (List Char))
    (values : List Char → List Char) :
    dashed (parameter :: parameters) values
      = '-' :: (values parameter ++ dashed parameters values) :=
  rfl

/-- There is no brace in a name. -/
lemma brace_notMem_of_isIdentifierName {name : List Char} (h : Code.isIdentifierName name = true) :
    '\x7d' ∉ name := by
  intro hmem
  simp only [Code.isIdentifierName, Bool.and_eq_true] at h
  exact absurd (List.all_eq_true.mp h.1.2 _ hmem) (by decide)

/-- There is no brace in the reads of parameters. -/
lemma brace_notMem_memberReads {params : List Char} {parameters : List (List Char)}
    (hparams : Code.isIdentifierName params = true)
    (hnames : ∀ parameter ∈ parameters, Code.isIdentifierName parameter = true) :
    ∀ piece ∈ memberReads params parameters, '\x7d' ∉ piece.1 := by
  induction parameters with
  | nil => simp [memberReads]
  | cons parameter parameters ih =>
    obtain ⟨hname, hothers⟩ := List.forall_mem_cons.mp hnames
    refine List.forall_mem_cons.mpr ⟨?_, ih hothers⟩
    simp only [List.mem_append, List.mem_cons, not_or]
    exact ⟨brace_notMem_of_isIdentifierName hparams, by decide,
      brace_notMem_of_isIdentifierName hname⟩

/-- The reads of parameters have the values of the parameters, with dashes between them. -/
lemma templateValue?_memberReads {params : List Char} {parameters : List (List Char)}
    (hnames : ∀ parameter ∈ parameters, Code.isIdentifierName parameter = true)
    (values : List Char → List Char) :
    Code.templateValue? (Code.memberValue? params values)
        (Code.Template.parts ⟨dashBefore parameters, memberReads params parameters⟩)
      = some (dashed parameters values) := by
  induction parameters with
  | nil => rfl
  | cons parameter parameters ih =>
    obtain ⟨hname, hothers⟩ := List.forall_mem_cons.mp hnames
    have hparts : Code.Template.parts
          ⟨dashBefore (parameter :: parameters), memberReads params (parameter :: parameters)⟩
        = .char '-' :: .code (params ++ '.' :: parameter)
          :: Code.Template.parts ⟨dashBefore parameters, memberReads params parameters⟩ := rfl
    rw [hparts, dashed_cons, Code.templateValue?, Code.templateValue?,
      Code.memberValue?_member values hname, ih hothers]
    rfl

/-- **The value of a key**: its base, and the values of the parameters. -/
lemma keyValue?_eq_some {params : List Char} (base : List Char) {parameters : List (List Char)}
    (hparams : Code.isIdentifierName params = true)
    (hnames : ∀ parameter ∈ parameters, Code.isIdentifierName parameter = true)
    (hne : parameters ≠ []) (values : List Char → List Char) :
    keyValue? params base parameters values
      = some (Code.lineFeeds base ++ dashed parameters values) := by
  have hcloses : ∀ parameter ∈ parameters, Code.ClosesAll (params ++ '.' :: parameter) :=
    fun parameter hmem => closesAll_member hparams (hnames parameter hmem)
  have hbrace := brace_notMem_memberReads hparams hnames
  have hvalue := (lexes_keyLiteral base hne hcloses).literalValue?_eq
    (by rintro template ⟨⟩; exact hbrace) (Code.memberValue? params values)
  obtain ⟨parameter, others, rfl⟩ := List.exists_cons_of_ne_nil hne
  have hparts : Code.Template.parts
        ⟨Code.lineFeeds base ++ ['-'], memberReads params (parameter :: others)⟩
      = (Code.lineFeeds base).map .char ++ Code.Template.parts
        ⟨dashBefore (parameter :: others), memberReads params (parameter :: others)⟩ := by
    rw [Code.Template.parts, Code.Template.parts, List.map_append, List.append_assoc]
    rfl
  rw [keyValue?, hvalue, Code.Literal.value?, hparts, Code.templateValue?_chars,
    templateValue?_memberReads hnames]
  rfl

/-! ## Dashes -/

/-- Values without dashes are the fields between the dashes. -/
lemma fields_dashed {parameters : List (List Char)} {values : List Char → List Char}
    (h : ∀ parameter ∈ parameters, '-' ∉ values parameter) :
    Text.fields '-' (dashed parameters values) = [] :: parameters.map values := by
  suffices hfields : ∀ first, '-' ∉ first →
      Text.fields '-' (first ++ dashed parameters values) = first :: parameters.map values from
    hfields [] (by simp)
  induction parameters with
  | nil =>
    intro first hfirst
    rw [dashed, List.flatMap_nil, List.append_nil, Text.fields_of_not_mem hfirst, List.map_nil]
  | cons parameter parameters ih =>
    intro first hfirst
    rw [dashed_cons, Text.fields_append hfirst, List.map_cons]
    rw [ih (fun name hname => h name (List.mem_cons_of_mem _ hname)) _
      (h parameter List.mem_cons_self)]

/-- Values without dashes can be read back. -/
lemma eq_of_dashed {parameters : List (List Char)} {a b : List Char → List Char}
    (ha : ∀ parameter ∈ parameters, '-' ∉ a parameter)
    (hb : ∀ parameter ∈ parameters, '-' ∉ b parameter)
    (h : dashed parameters a = dashed parameters b) :
    ∀ parameter ∈ parameters, a parameter = b parameter := by
  have hfields := congrArg (Text.fields '-') h
  rw [fields_dashed ha, fields_dashed hb] at hfields
  exact List.map_inj_left.mp (List.cons.inj hfields).2

/-- A dash in the first value or in the second one: the same text. -/
lemma dashed_collision {first second : List Char} {others : List (List Char)}
    (h : (first :: second :: others).Nodup) :
    dashed (first :: second :: others) (fun name => if name = first then ['-'] else [])
      = dashed (first :: second :: others) (fun name => if name = second then ['-'] else []) := by
  rw [List.nodup_cons, List.nodup_cons, List.mem_cons, not_or] at h
  obtain ⟨⟨hne, hfirst⟩, hsecond, -⟩ := h
  have hothers : dashed others (fun name => if name = first then ['-'] else [])
      = dashed others (fun name => if name = second then ['-'] else []) := by
    refine List.flatMap_congr fun name hname => ?_
    have hne₁ : name ≠ first := fun heq => hfirst (heq ▸ hname)
    have hne₂ : name ≠ second := fun heq => hsecond (heq ▸ hname)
    simp only [if_neg hne₁, if_neg hne₂]
  rw [dashed_cons, dashed_cons, dashed_cons, dashed_cons, hothers]
  simp [hne, Ne.symm hne]

/-! ## Requests -/

/-- The key tells all requests apart that give its parameters different values. -/
def Distinguishes (params base : List Char) (parameters : List (List Char)) : Prop :=
  ∀ (a b : List Char → List Char) (key : List Char),
    keyValue? params base parameters a = some key → keyValue? params base parameters b = some key →
    ∀ parameter ∈ parameters, a parameter = b parameter

/-- **What keys tell apart.** For any base and any distinct parameters, the keys of a route tell all
requests apart exactly if there is at most one parameter. Requests without dashes in their values are
told apart in any case. Every request has a key: the base, and a dash and a value for each parameter. -/
theorem keys_distinguish_iff {params base : List Char} {parameters : List (List Char)}
    (hparams : Code.isIdentifierName params = true)
    (hnames : ∀ parameter ∈ parameters, Code.isIdentifierName parameter = true)
    (hdistinct : parameters.Nodup) :
    (Distinguishes params base parameters ↔ parameters.length ≤ 1) ∧
    (∀ (a b : List Char → List Char) (key : List Char),
      (∀ parameter ∈ parameters, '-' ∉ a parameter ∧ '-' ∉ b parameter) →
      keyValue? params base parameters a = some key →
      keyValue? params base parameters b = some key →
      ∀ parameter ∈ parameters, a parameter = b parameter) ∧
    (parameters ≠ [] → ∀ values, keyValue? params base parameters values
      = some (Code.lineFeeds base ++ dashed parameters values)) := by
  have hvalue := keyValue?_eq_some base hparams hnames
  refine ⟨⟨?_, ?_⟩, ?_, hvalue⟩
  · -- two parameters are enough for a collision
    intro hall
    by_contra hlong
    obtain ⟨first, second, others, rfl⟩ : ∃ first second others,
        parameters = first :: second :: others := by
      match parameters, hlong with
      | first :: second :: others, _ => exact ⟨first, second, others, rfl⟩
      | [], h | [_], h => simp at h
    have hfirst := hvalue (by simp) fun name => if name = first then ['-'] else []
    have hsecond := hvalue (by simp) fun name => if name = second then ['-'] else []
    rw [← dashed_collision hdistinct] at hsecond
    have hsame := hall _ _ _ hfirst hsecond first List.mem_cons_self
    have hne : first ≠ second := by
      rintro rfl
      simp at hdistinct
    simp [hne] at hsame
  · intro hshort a b key ha hb
    match parameters, hshort with
    | [], _ => simp
    | [parameter], _ =>
      have heq := (hvalue (by simp) a).symm.trans (ha.trans (hb.symm.trans (hvalue (by simp) b)))
      have hdashed := List.append_cancel_left (Option.some.inj heq)
      rw [dashed_cons, dashed_cons] at hdashed
      simpa [dashed] using hdashed
  · intro a b key hfree ha hb
    by_cases hne : parameters = []
    · simp [hne]
    · have heq := (hvalue hne a).symm.trans (ha.trans (hb.symm.trans (hvalue hne b)))
      exact eq_of_dashed (fun name hname => (hfree name hname).1)
        (fun name hname => (hfree name hname).2) (List.append_cancel_left (Option.some.inj heq))

/-- Two parameters, and a base with characters that are escaped. -/
theorem keys_distinguish_iff_members :
    let params := "params".toList
    let parameters := ["team".toList, "user".toList]
    Code.isIdentifierName params = true ∧
      (∀ parameter ∈ parameters, Code.isIdentifierName parameter = true) ∧ parameters.Nodup ∧
      ¬ Distinguishes params "a`$\x7bb".toList parameters ∧
      keyValue? params "a`$\x7bb".toList parameters id = some "a`$\x7bb-team-user".toList := by
  intro params parameters
  have hparams : Code.isIdentifierName params = true := by decide
  have hnames : ∀ parameter ∈ parameters, Code.isIdentifierName parameter = true := by decide
  have hdistinct : parameters.Nodup := by decide
  obtain ⟨hiff, -, hvalue⟩ :=
    @keys_distinguish_iff params "a`$\x7bb".toList parameters hparams hnames hdistinct
  refine ⟨hparams, hnames, hdistinct, ?_, ?_⟩
  · rw [hiff]
    decide
  · exact (hvalue (by decide) id).trans (by decide)

/-- **Two requests with one key.** -/
theorem keys_collide :
    let parameters := Route.parameters ⟨"app/api/[a]/[b]/route.ts"⟩
    let first : List Char → List Char := fun name => if name = ['a'] then "1-2".toList else ['3']
    let second : List Char → List Char := fun name => if name = ['a'] then ['1'] else "2-3".toList
    parameters = [['a'], ['b']] ∧
      keyValue? "params".toList "users".toList parameters first = some "users-1-2-3".toList ∧
      keyValue? "params".toList "users".toList parameters second = some "users-1-2-3".toList ∧
      first ['a'] ≠ second ['a'] := by
  decide +kernel

end CachedRoutes.Query
