import CachedRoutes.Proofs.Code.Input
import CachedRoutes.Proofs.Query.Match

/-!
# What a wrapped query depends on

A query is handed to the cache only if the search for request input finds nothing in its arguments.
Here this is read off the tokens of the arguments.

* **Decisions.** `wrap_eq_wrapped`: what a wrapped query went through.
* **Keys.** `interpolates_of_mem`: each parameter of a route has its place in the key.
* **Names.** `wrapped_names_fixed`: in the plain arguments of a wrapped query every name is a member,
  an object key, a literal or a route parameter, and the key that is written holds all of the route's
  parameters.
* **Flaws.** `wrapped_name_hidden`: each flaw by itself can hide a name from the search.
-/

namespace CachedRoutes

/-- A parameter has a name. -/
lemma Route.nil_notMem_parameters (route : Route) : [] ∉ route.parameters := by
  intro hmem
  obtain ⟨segment, -, hsegment⟩ := List.mem_filterMap.mp hmem
  unfold Route.parameter? at hsegment
  dsimp only at hsegment
  split at hsegment
  · simp at hsegment
  · rename_i hne
    exact hne hsegment

namespace Query

/-! ## Decisions -/

/-- A query is wrapped if it is the only one, all parameters of the route are read, and there is no
request input in its arguments. -/
lemma wrap_eq_wrapped {wrapping : Settings.Wrapping} {route : Route} {policy : Policy}
    {text new : List Char} {query : Query}
    (h : wrap wrapping route policy text = .wrapped query new) :
    findAll wrapping text = [query] ∧
      unreadParameter? wrapping.params.toList text route.parameters = none ∧
      Code.requestInput? ⟨wrapping.params.toList, route.parameters⟩ .plain (arguments text query)
        = none ∧
      new = wrapText wrapping policy route.parameters text query := by
  unfold wrap at h
  split at h
  · simp at h
  · split at h
    · simp at h
    · rename_i found hfound
      split at h
      · simp at h
      · rename_i hobjection
        obtain ⟨rfl, rfl⟩ := Attempt.wrapped.inj h
        unfold objection? at hobjection
        dsimp only at hobjection
        split at hobjection
        · simp at hobjection
        · rename_i hread
          exact ⟨hfound, hread, Option.map_eq_none_iff.mp hobjection, rfl⟩
    · simp at h

/-- The arguments of the query that was wrapped, if one was. -/
def Attempt.arguments? (text : List Char) : Attempt → Option (List Char)
  | .wrapped query _ => some (arguments text query)
  | _ => none

/-- An attempt has arguments only if it wraps a query, and then they are those of the query. -/
lemma Attempt.arguments?_eq_some {attempt : Attempt} {text found : List Char}
    (h : attempt.arguments? text = some found) :
    ∃ query new, attempt = .wrapped query new ∧ arguments text query = found := by
  cases attempt with
  | wrapped query new => exact ⟨query, new, rfl, Option.some.inj h⟩
  | abstained why => simp [Attempt.arguments?] at h
  | alreadyWrapped => simp [Attempt.arguments?] at h

/-! ## Keys -/

/-- The key interpolates the parameter, at its place among the others. -/
def Interpolates (params base : List Char) (parameters : List (List Char))
    (key parameter : List Char) : Prop :=
  ∃ earlier later, parameters = earlier ++ parameter :: later ∧
    key = ['\x60'] ++ escapeTemplate base ++ earlier.flatMap (interpolation params)
      ++ interpolation params parameter ++ later.flatMap (interpolation params) ++ ['\x60']

/-- The key of a route interpolates each of its parameters. -/
lemma interpolates_of_mem {params base parameter : List Char} {parameters : List (List Char)}
    (h : parameter ∈ parameters) :
    Interpolates params base parameters (keyLiteral params base parameters) parameter := by
  obtain ⟨earlier, later, rfl⟩ := List.append_of_mem h
  refine ⟨earlier, later, rfl, ?_⟩
  have hempty : (earlier ++ parameter :: later).isEmpty = false := by simp
  rw [keyLiteral, if_neg (by simp [hempty]), List.flatMap_append, List.flatMap_cons]
  simp only [List.append_assoc]

/-- The text up to the key in the new text, in terms of the old one. -/
def beforeKey (wrapping : Settings.Wrapping) (before indent expr : List Char) : List Char :=
  before ++ "await ".toList ++ wrapping.wrapper.toList ++ "(\n".toList
    ++ indent ++ "  async () => await ".toList ++ expr ++ ",\n".toList ++ indent ++ "  [".toList

/-- Where the key stands in the text with the wrapped query. -/
lemma wrapText_key {wrapping : Settings.Wrapping} {query : Query} {text : List Char}
    (h : query ∈ findAll wrapping text) (policy : Policy) (parameters : List (List Char)) :
    ∃ before indent rest, wrapText wrapping policy parameters text query
      = beforeKey wrapping before indent (query.client.toList ++ arguments text query)
        ++ keyLiteral wrapping.params.toList policy.keyBase.toList parameters
        ++ "],\n".toList ++ rest := by
  obtain ⟨a, gap, calls, b, hstands⟩ := mem_findAll h
  refine ⟨a, indentAfter a, ?_⟩
  rw [hstands.wrapText_eq, hstands.arguments_eq]
  unfold wrappedExpression beforeKey
  simp only [List.append_assoc]
  exact ⟨_, rfl⟩

/-! ## Names -/

/-- **Nothing but the key decides what a wrapped query fetches.** Where the arguments of a wrapped
query are plain, each name in them, at any depth, is a member, an object key, a literal or a read of
a route parameter; and the key in the new text holds the value of each route parameter. -/
theorem wrapped_names_fixed {wrapping : Settings.Wrapping} {route : Route} {policy : Policy}
    {text new : List Char} {query : Query} {tokens : List Code.Token}
    (hwrap : wrap wrapping route policy text = .wrapped query new)
    (hreads : Code.Reads .code 0 (arguments text query) tokens)
    (hplain : Code.Plain (arguments text query) tokens) :
    (∀ before name after, Code.significant tokens = before ++ .name name :: after →
      Code.FixedName ⟨wrapping.params.toList, route.parameters⟩ before.getLast? name after) ∧
    ∃ before indent key rest,
      new = beforeKey wrapping before indent (query.client.toList ++ arguments text query)
        ++ key ++ "],\n".toList ++ rest ∧
      ∀ parameter ∈ route.parameters,
        Interpolates wrapping.params.toList policy.keyBase.toList route.parameters key parameter := by
  obtain ⟨hfound, -, hinput, rfl⟩ := wrap_eq_wrapped hwrap
  constructor
  · intro before name after hsplit
    have hfixed := hreads.allFixed route.nil_notMem_parameters hplain .plain none
      (Code.suits_plain _ _) hinput
    rw [hsplit] at hfixed
    simpa using hfixed.fixedName
  · obtain ⟨before, indent, rest, hnew⟩ :=
      wrapText_key (by rw [hfound]; exact List.mem_singleton.mpr rfl) policy route.parameters
    refine ⟨before, indent, _, rest, hnew, ?_⟩
    intro parameter hparameter
    exact interpolates_of_mem hparameter

/-- The arguments of a query for one user, as tokens. -/
def userTokens : List Code.Token :=
  [⟨0, .dots 1⟩, ⟨0, .name ['e', 'q']⟩, ⟨0, .mark '('⟩, ⟨0, .quoted ['i', 'd']⟩, ⟨0, .mark ','⟩,
    ⟨0, .template⟩, ⟨0, .interpolation⟩, ⟨1, .name ['p', 'a', 'r', 'a', 'm', 's']⟩, ⟨1, .dots 1⟩,
    ⟨1, .name ['i', 'd']⟩, ⟨0, .resumption⟩, ⟨0, .templateEnd⟩, ⟨0, .mark ')'⟩, ⟨0, .dots 1⟩,
    ⟨0, .name ['l', 'i', 'm', 'i', 't']⟩, ⟨0, .mark '('⟩, ⟨0, .number ['1']⟩, ⟨0, .mark ')'⟩]

/-- The calls of the example are read as these tokens. -/
lemma reads_userTokens :
    Code.Reads .code 0 (['.', 'e', 'q', '(', '\x27', 'i', 'd', '\x27', ',', ' ', '\x60', 'u', '$',
      '\x7b', 'p', 'a', 'r', 'a', 'm', 's', '.', 'i', 'd', '\x7d', '\x60', ')', '.', 'l', 'i', 'm',
      'i', 't', '(', '1', ')']) userTokens := by
  have hnumber : Code.Reads .code 0 ['1', ')'] [⟨0, .number ['1']⟩, ⟨0, .mark ')'⟩] :=
    @Code.Reads.number 0 ['1'] [')'] _ (.whole (by decide) (by simp)) (by simp; decide) (by simp)
      (Code.reads_mark (by decide) .nil)
  have hlimit : Code.Reads .code 0 [')', '.', 'l', 'i', 'm', 'i', 't', '(', '1', ')']
      (userTokens.drop 12) := by
    refine Code.reads_mark (by decide) (Code.reads_dot (by decide) ?_)
    refine @Code.reads_name 0 'l' ['i', 'm', 'i', 't'] _ _ (by decide) (by decide) ?_
    exact Code.reads_mark (by decide) hnumber
  have hread : Code.Reads .code 1 ['p', 'a', 'r', 'a', 'm', 's', '.', 'i', 'd']
      [⟨1, .name ['p', 'a', 'r', 'a', 'm', 's']⟩, ⟨1, .dots 1⟩, ⟨1, .name ['i', 'd']⟩] := by
    refine @Code.reads_name 1 'p' ['a', 'r', 'a', 'm', 's'] _ _ (by decide) (by decide) ?_
    refine Code.reads_dot (by decide) ?_
    exact @Code.reads_name 1 'i' ['d'] [] _ (by decide) (by decide) .nil
  have hbody := @Code.Reads.char 0 'u' _ _ (by decide) (by decide) (by decide)
    (.interpolation hread rfl .done)
  refine Code.reads_dot (by decide) ?_
  refine @Code.reads_name 0 'e' ['q'] _ _ (by decide) (by decide) ?_
  refine Code.reads_mark (by decide) ?_
  refine @Code.Reads.quoted 0 '\x27' ['i', 'd'] _ _ (.inl rfl) ?_ ?_
  · exact .char (by decide) (by decide) (by decide)
      (.char (by decide) (by decide) (by decide) .nil)
  refine Code.reads_mark (by decide) ?_
  exact .gap (by decide) (.template hbody hlimit)

/-- A route parameter that is read inside of a template. -/
theorem wrapped_names_fixed_user :
    let route : Route := ⟨"app/api/users/[id]/route.ts"⟩
    let text := "const \x7b data \x7d = await query.eq('id', `u$\x7bparams.id\x7d`).limit(1)\n".toList
    ∃ query new, wrap {} route ⟨.users, 300, "user"⟩ text = .wrapped query new ∧
      Code.Reads .code 0 (arguments text query) userTokens ∧
      Code.Plain (arguments text query) userTokens ∧
      Code.FixedName ⟨"params".toList, route.parameters⟩ (some .interpolation) "params".toList
        ((Code.significant userTokens).drop 8) ∧
      ∃ before indent key rest,
        new = beforeKey {} before indent (query.client.toList ++ arguments text query) ++ key
          ++ "],\n".toList ++ rest ∧
        Interpolates "params".toList "user".toList route.parameters key ['i', 'd'] := by
  intro route text
  have hattempt : (wrap {} route ⟨.users, 300, "user"⟩ text).arguments? text
      = some ".eq('id', `u$\x7bparams.id\x7d`).limit(1)".toList := by decide +kernel
  obtain ⟨query, new, hwrap, hargs⟩ := Attempt.arguments?_eq_some hattempt
  have hreads : Code.Reads .code 0 (arguments text query) userTokens := hargs ▸ reads_userTokens
  have hplain : Code.Plain (arguments text query) userTokens := by
    rw [hargs]
    unfold Code.Plain
    decide
  obtain ⟨hnames, before, indent, key, rest, hnew, hkey⟩ := wrapped_names_fixed hwrap hreads hplain
  refine ⟨query, new, hwrap, hreads, hplain, ?_, before, indent, key, rest, hnew, ?_⟩
  · exact hnames ((Code.significant userTokens).take 7) _ _ (by decide)
  · exact hkey ['i', 'd'] (by decide +kernel)

/-! ## Flaws -/

/-- A name that is no member, no key, no literal and not the holder of the parameters is not fixed.
-/
lemma not_fixedName {known : Code.KeyedInput} {before : Option Code.Kind} {name : List Char}
    {after : List Code.Kind} (hmember : before ≠ some (.dots 1))
    (hkey : after.head? ≠ some (.mark ':')) (hliteral : name ∉ Code.literalNames)
    (hholder : name ≠ known.holder) : ¬ Code.FixedName known before name after := by
  intro h
  cases h with
  | member => exact hmember rfl
  | key => exact hkey rfl
  | literal hname => exact hliteral hname
  | parameter => exact hholder rfl

/-- A statement that fetches data in the order that the argument gives. -/
def ordered (argument : List Char) : List Char :=
  "const \x7b data \x7d = await query.order(".toList ++ argument ++ ")\n".toList

/-- The attempt to wrap the statement in a route without parameters. -/
def wrapOrdered (argument : List Char) : Attempt :=
  wrap {} ⟨"app/api/users/route.ts"⟩ ⟨.users, 300, "users"⟩ (ordered argument)

/-- The statement is wrapped although a name in it is not fixed by the key, and the flaw is the only
one of its arguments. -/
def HidesName (flaw : Code.Flaw) (argument : List Char) : Prop :=
  ∃ query new tokens before name after,
    wrapOrdered argument = .wrapped query new ∧
      Code.Reads .code 0 (arguments (ordered argument) query) tokens ∧
      (∀ other ≠ flaw, other.Absent (arguments (ordered argument) query) tokens) ∧
      Code.significant tokens = before ++ .name name :: after ∧
      ¬ Code.FixedName ⟨"params".toList, Route.parameters ⟨"app/api/users/route.ts"⟩⟩
        before.getLast? name after

/-- An argument hides a name if its query is wrapped, no other flaw is present, and one of its
tokens is a name that is not fixed. -/
lemma hidesName_of_reads {flaw : Code.Flaw} {argument text name : List Char}
    {tokens : List Code.Token} (i : Nat)
    (hwrapped : (wrapOrdered argument).arguments? (ordered argument) = some text)
    (hreads : Code.Reads .code 0 text tokens)
    (hother : ∀ other ≠ flaw, other.Absent text tokens)
    (hname : (Code.significant tokens)[i]? = some (.name name))
    (hmember : ((Code.significant tokens).take i).getLast? ≠ some (.dots 1))
    (hkey : ((Code.significant tokens).drop (i + 1)).head? ≠ some (.mark ':'))
    (hliteral : name ∉ Code.literalNames) (hholder : name ≠ "params".toList) :
    HidesName flaw argument := by
  obtain ⟨query, new, hwrap, rfl⟩ := Attempt.arguments?_eq_some hwrapped
  obtain ⟨hi, hget⟩ := List.getElem?_eq_some_iff.mp hname
  refine ⟨query, new, tokens, (Code.significant tokens).take i, name,
    (Code.significant tokens).drop (i + 1), hwrap, hreads, hother, ?_,
    not_fixedName hmember hkey hliteral hholder⟩
  rw [← hget, List.getElem_cons_drop, List.take_append_drop]

/-- The call of `order` is read as three tokens in front of its arguments. -/
lemma reads_order {text : List Char} {tokens : List Code.Token}
    (h : Code.Reads .code 0 text tokens) :
    Code.Reads .code 0 ('.' :: 'o' :: 'r' :: 'd' :: 'e' :: 'r' :: '(' :: text)
      (⟨0, .dots 1⟩ :: ⟨0, .name ['o', 'r', 'd', 'e', 'r']⟩ :: ⟨0, .mark '('⟩ :: tokens) :=
  Code.reads_dot (by simp) <|
    @Code.reads_name 0 'o' ['r', 'd', 'e', 'r'] _ _ (by decide) (by simp; decide) <|
      Code.reads_mark (by decide) h

/-- A closing parenthesis is read as one token. -/
lemma reads_close : Code.Reads .code 0 [')'] [⟨0, .mark ')'⟩] :=
  Code.reads_mark (by decide) .nil

/-- A comment that a carriage return ends, and a name behind it. -/
lemma hidesName_lineEnd : HidesName .lineEnd "//\rq\n".toList := by
  have hreads : Code.Reads .code 0 ['/', '/', '\r', 'q', '\n', ')']
      [⟨0, .comment []⟩, ⟨0, .name ['q']⟩, ⟨0, .mark ')'⟩] :=
    @Code.Reads.lineComment 0 [] _ _ (by simp) (by simp; decide) (by simp) <|
      .gap (by decide) <| @Code.reads_name 0 'q' [] _ _ (by decide) (by decide) <|
        .gap (by decide) reads_close
  exact hidesName_of_reads 3 (by decide +kernel) (reads_order hreads) (by decide)
    (by rfl) (by decide) (by decide) (by decide) (by decide)

/-- A name of another script is hidden. -/
lemma hidesName_foreignName : HidesName .foreignName "é".toList := by
  have hreads : Code.Reads .code 0 ['é', ')'] [⟨0, .name ['é']⟩, ⟨0, .mark ')'⟩] :=
    @Code.reads_name 0 'é' [] _ _ (by decide +kernel) (by decide) reads_close
  exact hidesName_of_reads 3 (by decide +kernel) (reads_order hreads) (by decide)
    (by rfl) (by decide) (by decide) (by decide) (by decide)

/-- The dot of a number in front of a name. -/
lemma hidesName_numberRun : HidesName .numberRun "1. q".toList := by
  have hnumber : Code.IsNumber ['1', '.'] :=
    @Code.IsNumber.decimal '1' [] [] (by decide) (by simp) (by simp)
  have hreads : Code.Reads .code 0 ['1', '.', ' ', 'q', ')']
      [⟨0, .number ['1', '.']⟩, ⟨0, .name ['q']⟩, ⟨0, .mark ')'⟩] :=
    @Code.Reads.number 0 ['1', '.'] _ _ hnumber (by simp; decide) (by simp) <|
      .gap (by decide) <|
        @Code.reads_name 0 'q' [] _ _ (by decide) (by decide) reads_close
  exact hidesName_of_reads 4 (by decide +kernel) (reads_order hreads) (by decide)
    (by rfl) (by decide) (by decide) (by decide) (by decide)

/-- A comment in an interpolation, with the brace that closes interpolations in it. -/
lemma hidesName_commentQuote : HidesName .commentQuote "`$\x7b/*\x7d*/q\x7d`".toList := by
  have hcode : Code.Reads .code 1 ['/', '*', '\x7d', '*', '/', 'q']
      [⟨1, .comment ['\x7d']⟩, ⟨1, .name ['q']⟩] :=
    @Code.Reads.blockComment 1 ['\x7d'] _ _ (by decide) <|
      @Code.reads_name 1 'q' [] [] _ (by decide) (by decide) .nil
  have hbody : Code.Reads .template 0
      ['$', '\x7b', '/', '*', '\x7d', '*', '/', 'q', '\x7d']
      [⟨0, .interpolation⟩, ⟨1, .comment ['\x7d']⟩, ⟨1, .name ['q']⟩, ⟨0, .resumption⟩] :=
    .interpolation hcode rfl .done
  exact hidesName_of_reads 5 (by decide +kernel) (reads_order (.template hbody reads_close))
    (by decide) (by rfl) (by decide) (by decide) (by decide) (by decide)

/-- Three templates, one in the other, with the brace that closes interpolations in the innermost. -/
lemma hidesName_nestedBacktick :
    HidesName .nestedBacktick "`$\x7b`$\x7b`\x7d`\x7d` + q\x7d`".toList := by
  have hinnermost : Code.Reads .code 2 ['\x60', '\x7d', '\x60']
      [⟨2, .template⟩, ⟨2, .templateEnd⟩] :=
    .template (.char (by decide) (by decide) (by simp) .done) .nil
  have hinner : Code.Reads .template 1 ['$', '\x7b', '\x60', '\x7d', '\x60', '\x7d']
      [⟨1, .interpolation⟩, ⟨2, .template⟩, ⟨2, .templateEnd⟩, ⟨1, .resumption⟩] :=
    .interpolation hinnermost rfl .done
  have hsum : Code.Reads .code 1 [' ', '+', ' ', 'q'] [⟨1, .mark '+'⟩, ⟨1, .name ['q']⟩] :=
    .gap (by decide) <| Code.reads_mark (by decide) <|
      .gap (by decide) <|
      @Code.reads_name 1 'q' [] [] _ (by decide) (by decide) .nil
  have hbody := Code.Reads.interpolation (Code.Reads.template hinner hsum) rfl .done
  exact hidesName_of_reads 12 (by decide +kernel) (reads_order (.template hbody reads_close))
    (by decide) (by rfl) (by decide) (by decide) (by decide) (by decide)

/-- **Each flaw alone can hide a name.** For each flaw there is a query, without any other flaw in
its arguments, that is wrapped although it depends on a name that its key leaves out. -/
theorem wrapped_name_hidden :
    HidesName .lineEnd "//\rq\n".toList ∧ HidesName .foreignName "é".toList ∧
      HidesName .numberRun "1. q".toList ∧
      HidesName .commentQuote "`$\x7b/*\x7d*/q\x7d`".toList ∧
      HidesName .nestedBacktick "`$\x7b`$\x7b`\x7d`\x7d` + q\x7d`".toList :=
  ⟨hidesName_lineEnd, hidesName_foreignName, hidesName_numberRun, hidesName_commentQuote,
    hidesName_nestedBacktick⟩

end Query

end CachedRoutes
