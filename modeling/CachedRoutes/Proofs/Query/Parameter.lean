import CachedRoutes.Proofs.Code.Reader
import CachedRoutes.Proofs.Query.Prebuilt

/-!
# Reads of route parameters

The key of a wrapped query reads each parameter of the route from the parameter object, so the handler
should read it there as well. The check for this looks for the text of the read anywhere in the file.

* **Mentions.** `mentions`: the places where a word stands in a text, whatever is around it.
* **Reads.** `Mention.IsRead`: the mention is code, the object is a name of its own and no member, and the
  parameter is a whole name too. `Flaw` lists what can be wrong with a mention, and `isRead_iff` says that
  the list is complete.
* **Decisions** (`wrapped_iff_mentioned`): a query is wrapped for any mentions of the parameters, with and
  without flaws. `wrapped_with_flaw` has, for each flaw, a query that is wrapped although the parameter
  is never read.
-/

namespace CachedRoutes.Query

/-! ## Mentions -/

/-- A place in a text where a word stands. -/
structure Mention where
  /-- The text in front of the word. -/
  front : List Char
  /-- The text behind the word. -/
  rest : List Char
  deriving DecidableEq, Repr

/-- The mentions of a word in a text. -/
def mentions (word text : List Char) : List Mention :=
  (List.range (text.length + 1)).filterMap fun n =>
    (Text.after? word (text.drop n)).map (Mention.mk (text.take n))

/-- Each way to cut a word out of a text is a mention of it. -/
lemma mem_mentions {word text : List Char} {mention : Mention} :
    mention ∈ mentions word text ↔ text = mention.front ++ word ++ mention.rest := by
  simp only [mentions, List.mem_filterMap, List.mem_range, Option.map_eq_some_iff,
    Text.after?_eq_some_iff]
  constructor
  · rintro ⟨n, -, rest, hdrop, rfl⟩
    calc text = text.take n ++ text.drop n := (List.take_append_drop n text).symm
      _ = text.take n ++ word ++ rest := by rw [hdrop, List.append_assoc]
  · rintro rfl
    obtain ⟨front, rest⟩ := mention
    refine ⟨front.length, ?_, rest, ?_, ?_⟩
    · simp only [List.length_append]
      omega
    · rw [List.append_assoc, List.drop_left]
    · rw [List.append_assoc, List.take_left]

/-- A word is mentioned exactly if it stands somewhere in the text. -/
lemma mentions_ne_nil_iff {word text : List Char} : mentions word text ≠ [] ↔ word <:+: text := by
  rw [List.ne_nil_iff_exists_cons]
  constructor
  · rintro ⟨mention, others, hmentions⟩
    have hmention : mention ∈ mentions word text := by
      rw [hmentions]
      exact List.mem_cons_self
    exact ⟨mention.front, mention.rest, (mem_mentions.mp hmention).symm⟩
  · rintro ⟨front, rest, htext⟩
    have hmention : ⟨front, rest⟩ ∈ mentions word text := mem_mentions.mpr htext.symm
    exact List.exists_cons_of_ne_nil (List.ne_nil_of_mem hmention)

/-! ## Reads -/

/-- Is the text a name that source text can use? -/
def isWholeName : List Char → Bool
  | [] => false
  | c :: rest => !c.isDigit && (c :: rest).all Code.isIdentifierChar

/-- The last character in front of a mention that is not blank. -/
def Mention.before? (mention : Mention) : Option Char :=
  (mention.front.reverse.dropWhile Text.isBlank).head?

/-- The mention of `params.parameter` is a read of the parameter. -/
structure Mention.IsRead (params parameter : List Char) (mention : Mention) : Prop where
  /-- All of it is code. -/
  in_code : ∀ part, part <+: params ++ '.' :: parameter →
    Code.regionBehind (mention.front ++ part) = .code
  /-- The object is no member of another one. -/
  not_member : mention.before? ≠ some '.'
  /-- The object's name starts here. -/
  starts : ∀ c ∈ mention.front.getLast?, Code.isIdentifierChar c = false
  whole : isWholeName parameter = true
  /-- The parameter's name ends here. -/
  ends : ∀ c ∈ mention.rest.head?, Code.isIdentifierChar c = false

/-- What can be wrong with a mention. -/
inductive Mention.Flaw where
  | commented
  | quoted
  /-- The object is a member: `context.params.id`. -/
  | member
  /-- The object's name goes on to the left: `myparams.id`. -/
  | longerObject
  /-- The parameter's name goes on to the right: `params.idx`. -/
  | longerParameter
  /-- The parameter is no name, so that the read is another one: `params.user-id`. -/
  | otherName
  deriving DecidableEq, Repr

/-- Does the mention of the parameter have the flaw? -/
def Mention.has (mention : Mention) (parameter : List Char) : Mention.Flaw → Bool
  | .commented => Code.regionBehind mention.front == .comment
  | .quoted => Code.regionBehind mention.front == .quoted
  | .member => mention.before? == some '.'
  | .longerObject => mention.front.getLast?.any Code.isIdentifierChar
  | .longerParameter => mention.rest.head?.any Code.isIdentifierChar
  | .otherName => !isWholeName parameter

/-- The read of a parameter consists of quiet characters. -/
lemma isQuiet_of_mem_read {params parameter : List Char} (hparams : Code.IsName params)
    (hparameter : isWholeName parameter = true) {c : Char} (hc : c ∈ params ++ '.' :: parameter) :
    Code.IsQuiet c := by
  rw [List.mem_append, List.mem_cons] at hc
  rcases hc with hc | rfl | hc
  · exact Code.isQuiet_of_isIdentifierChar
      (Code.isIdentifierChar_of_isNameChar (hparams.chars c hc))
  · exact ⟨by decide, by decide, by decide, by decide, by decide⟩
  · cases parameter with
    | nil => simp at hc
    | cons d rest =>
      rw [isWholeName, Bool.and_eq_true] at hparameter
      exact Code.isQuiet_of_isIdentifierChar (List.all_eq_true.mp hparameter.2 c hc)

/-- **A mention is a read exactly if it has no flaw.** -/
lemma Mention.isRead_iff {params parameter : List Char} (hparams : Code.IsName params)
    (mention : Mention) :
    mention.IsRead params parameter ↔ ∀ flaw, mention.has parameter flaw = false := by
  constructor
  · intro hread flaw
    have hcode : Code.regionBehind mention.front = .code := by
      simpa using hread.in_code [] List.nil_prefix
    cases flaw with
    | commented | quoted => simp [has, hcode]
    | member => simpa [has] using hread.not_member
    | longerObject => exact (Option.any_eq_false _ _).mpr hread.starts
    | longerParameter => exact (Option.any_eq_false _ _).mpr hread.ends
    | otherName => simpa [has] using hread.whole
  · intro hflaws
    have hwhole : isWholeName parameter = true := by simpa [has] using hflaws .otherName
    have hcode : Code.regionBehind mention.front = .code := by
      have hcomment := hflaws .commented
      have hquoted := hflaws .quoted
      cases hregion : Code.regionBehind mention.front with
      | code => rfl
      | comment => simp [has, hregion] at hcomment
      | quoted => simp [has, hregion] at hquoted
    refine ⟨?_, by simpa [has] using hflaws .member,
      (Option.any_eq_false _ _).mp (hflaws .longerObject), hwhole,
      (Option.any_eq_false _ _).mp (hflaws .longerParameter)⟩
    -- nothing opens in the mention, so what holds of its start holds of all of it
    intro part hpart
    apply Code.regionBehind_append_of_quiet hcode
    intro c hc
    exact isQuiet_of_mem_read hparams hwhole (hpart.subset hc)

/-! ## Decisions -/

/-- Was the query wrapped? -/
def Attempt.isWrapped : Attempt → Bool
  | .wrapped _ _ => true
  | _ => false

/-- An attempt wraps if it has a query and a new text. -/
lemma Attempt.isWrapped_iff {attempt : Attempt} :
    attempt.isWrapped = true ↔ ∃ query new, attempt = .wrapped query new := by
  cases attempt <;> simp [isWrapped]

/-- **All that a query is wrapped for.** Each parameter of the route has to be mentioned somewhere. -/
lemma isWrapped_wrap_iff {wrapping : Settings.Wrapping} {route : Route} {policy : Policy}
    {text : List Char} :
    (wrap wrapping route policy text).isWrapped = true ↔
      Code.callsFunction wrapping.wrapper.toList text = false ∧
        ∃ query, findAll wrapping text = [query] ∧
          (∀ parameter ∈ route.parameters,
            mentions (wrapping.params.toList ++ '.' :: parameter) text ≠ []) ∧
          Code.requestInput? ⟨wrapping.params.toList, route.parameters⟩ .plain
            (arguments text query) = none := by
  have hsingle : ∀ {query}, findAll wrapping text = [query] →
      ((wrap wrapping route policy text).isWrapped = true ↔
        Code.callsFunction wrapping.wrapper.toList text = false ∧
          (∀ parameter ∈ route.parameters,
            mentions (wrapping.params.toList ++ '.' :: parameter) text ≠ []) ∧
          Code.requestInput? ⟨wrapping.params.toList, route.parameters⟩ .plain
            (arguments text query) = none) := by
    intro query hquery
    have hiff := not_congr (@wrap_ne_wrapped_iff wrapping route policy text query hquery)
    push Not at hiff
    rw [Attempt.isWrapped_iff, hiff, Option.eq_none_iff_forall_ne_some, ne_eq, Bool.not_eq_true]
    simp only [mentions_ne_nil_iff]
  constructor
  · intro hwrapped
    obtain ⟨query, new, heq⟩ := Attempt.isWrapped_iff.mp hwrapped
    have hquery := (wrap_eq_wrapped heq).1
    obtain ⟨hcalls, hrest⟩ := (hsingle hquery).mp hwrapped
    exact ⟨hcalls, query, hquery, hrest⟩
  · rintro ⟨hcalls, query, hquery, hrest⟩
    exact (hsingle hquery).mpr ⟨hcalls, hrest⟩

/-- **When the parameters of a wrapped query are read.** Let the parameter object have a proper name. A
query is wrapped, as far as the parameters are concerned, exactly if each of them is mentioned in the
text. Such a mention is a read exactly if it has none of the flaws; and in a text without templates and
without lines that go on in the next one, it stands in code exactly if no span of the scanner covers its
start. -/
theorem wrapped_iff_mentioned {wrapping : Settings.Wrapping} {route : Route} {policy : Policy}
    {text : List Char} (hparams : Settings.isIdentifier wrapping.params = true) :
    ((wrap wrapping route policy text).isWrapped = true ↔
      Code.callsFunction wrapping.wrapper.toList text = false ∧
        ∃ query, findAll wrapping text = [query] ∧
          (∀ parameter ∈ route.parameters,
            mentions (wrapping.params.toList ++ '.' :: parameter) text ≠ []) ∧
          Code.requestInput? ⟨wrapping.params.toList, route.parameters⟩ .plain
            (arguments text query) = none) ∧
    ∀ parameter, ∀ mention ∈ mentions (wrapping.params.toList ++ '.' :: parameter) text,
      (mention.IsRead wrapping.params.toList parameter ↔
        ∀ flaw, mention.has parameter flaw = false) ∧
      (Code.backtick ∉ text → ¬ ['\\', '\n'] <:+: text →
        (Code.regionBehind mention.front = .code ↔
          ∀ span ∈ Code.spans text, span.covers mention.front.length = false)) := by
  have hname : Code.IsName wrapping.params.toList := Code.isName_of_isIdentifier hparams
  refine ⟨isWrapped_wrap_iff, ?_⟩
  intro parameter mention hmention
  refine ⟨mention.isRead_iff hname, ?_⟩
  intro htemplate hfeed
  obtain ⟨c, name, hcons⟩ := List.exists_cons_of_ne_nil hname.ne_nil
  have hc : Code.isIdentifierChar c = true := by
    apply Code.isIdentifierChar_of_isNameChar
    apply hname.chars
    rw [hcons]
    exact List.mem_cons_self
  have htext : text = mention.front ++ c :: (name ++ '.' :: parameter ++ mention.rest) := by
    rw [mem_mentions.mp hmention, hcons]
    simp
  rw [htext] at htemplate hfeed ⊢
  exact Code.regionBehind_iff_not_covered hc htemplate hfeed

/-- A query by a parameter of its route is wrapped, and the parameter is read. -/
theorem wrapped_iff_mentioned_users :
    let text := "const \x7b data \x7d = await supabase.from('a').select().eq('id', params.id)\n".toList
    let route : Route := ⟨"app/api/users/[id]/route.ts"⟩
    Settings.isIdentifier ({} : Settings.Wrapping).params = true ∧
      (wrap {} route ⟨.users, 300, "users"⟩ text).isWrapped = true ∧
      ∃ mention ∈ mentions ("params".toList ++ '.' :: "id".toList) text,
        mention.IsRead "params".toList "id".toList := by
  intro text route
  have hparams : Settings.isIdentifier ({} : Settings.Wrapping).params = true := by decide
  have htext : text = _ := String.toList_ofList
  obtain ⟨hwrapped, hmentions⟩ :=
    @wrapped_iff_mentioned {} route ⟨.users, 300, "users"⟩ text hparams
  refine ⟨hparams, hwrapped.mpr ?_, ?_⟩
  · refine ⟨by rw [htext]; decide +kernel, ⟨17, 23, 70, "supabase", .select⟩, ?_⟩
    rw [htext]
    decide +kernel
  · have hmention : (⟨text.take 60, ")\n".toList⟩ : Mention)
        ∈ mentions ("params".toList ++ '.' :: "id".toList) text := by
      rw [htext]
      decide +kernel
    refine ⟨_, hmention, (hmentions "id".toList _ hmention).1.mpr ?_⟩
    intro flaw
    rw [htext]
    cases flaw <;> decide +kernel

/-- The directory of a route parameter, for a mention with the flaw. -/
def Mention.Flaw.segment : Mention.Flaw → String
  | .otherName => "[user-id]"
  | _ => "[id]"

/-- A line with a mention that has the flaw. -/
def Mention.Flaw.line : Mention.Flaw → String
  | .commented => "// params.id\n"
  | .quoted => "log('params.id')\n"
  | .member => "log(context.params.id)\n"
  | .longerObject => "log(myparams.id)\n"
  | .longerParameter => "log(params.idx)\n"
  | .otherName => "log(params.user-id)\n"

/-- For each flaw there is a handler that mentions the parameter of its route with this flaw only, and
its query is wrapped, under a key that reads the parameter. -/
lemma wrapped_with_flaw (flaw : Mention.Flaw) :
    let text := flaw.line.toList ++ "const \x7b data \x7d = await supabase.from('a').select()\n".toList
    let route : Route := ⟨"app/api/users/" ++ flaw.segment ++ "/route.ts"⟩
    (wrap {} route ⟨.users, 300, "users"⟩ text).isWrapped = true ∧
      ∃ parameter ∈ route.parameters,
        ∀ mention ∈ mentions ("params".toList ++ '.' :: parameter) text,
          mention.has parameter flaw = true ∧ ¬ mention.IsRead "params".toList parameter := by
  intro text route
  have hname : Code.IsName "params".toList :=
    Code.isName_of_isIdentifier (show Settings.isIdentifier "params" = true by decide)
  have hflawed : (wrap {} route ⟨.users, 300, "users"⟩ text).isWrapped = true ∧
      ∃ parameter ∈ route.parameters,
        ∀ mention ∈ mentions ("params".toList ++ '.' :: parameter) text,
          mention.has parameter flaw = true := by
    have htext : text = flaw.line.toList ++ _ := congrArg (flaw.line.toList ++ ·) String.toList_ofList
    rw [htext]
    cases flaw <;> decide +kernel
  obtain ⟨hwrapped, parameter, hparameter, hmentions⟩ := hflawed
  refine ⟨hwrapped, parameter, hparameter, ?_⟩
  intro mention hmention
  refine ⟨hmentions mention hmention, ?_⟩
  intro hread
  have hnone := (mention.isRead_iff hname).mp hread flaw
  rw [hmentions mention hmention] at hnone
  exact Bool.noConfusion hnone

/-- **Wrapped, and the parameter is never read.** Its only mention stands in a comment. -/
theorem unread_parameter_wrapped :
    let text := "// params.id\n".toList
      ++ "const \x7b data \x7d = await supabase.from('a').select()\n".toList
    let route : Route := ⟨"app/api/users/[id]/route.ts"⟩
    (wrap {} route ⟨.users, 300, "users"⟩ text).isWrapped = true ∧
      ∃ parameter ∈ route.parameters,
        ∀ mention ∈ mentions ("params".toList ++ '.' :: parameter) text,
          ¬ mention.IsRead "params".toList parameter := by
  intro text route
  obtain ⟨hwrapped, parameter, hparameter, hmentions⟩ := wrapped_with_flaw .commented
  exact ⟨hwrapped, parameter, hparameter, fun mention hmention => (hmentions mention hmention).2⟩

end CachedRoutes.Query
