import CachedRoutes.Proofs.Disk.Component
import CachedRoutes.Proofs.Route.Segment

/-!
# Routes as labels

The route of a text is the text less some `./` and then some slashes in front (`normalise_eq_iff`).
Both are taken off once, in this order. Where slashes come in front of a `./`, that one comes to light
(`Resurfaces`), and the route is not the route of its own text (`ofText_normal_iff`).

The routes of files are made of the components of their paths, among which `.` stands only in front.
So they are the routes of their own texts unless a name has a backslash (`ofText_ofPath`). A file
below the root has the route that its path below the root denotes, however the root is spelled
(`ofPath_join`).
-/

namespace CachedRoutes.Route

/-! ## What is taken off -/

/-- The text with a slash for every backslash. -/
def slashed (text : List Char) : List Char :=
  text.map fun c => if c = '\\' then '/' else c

/-- So many times `./`. -/
def heres (count : Nat) : List Char :=
  (List.replicate count ['.', '/']).flatten

/-- In front of the text there are slashes, behind any number of `./`, and then `./` again. -/
def Resurfaces (text : List Char) : Prop :=
  ∃ count more rest,
    slashed text = heres count ++ List.replicate (more + 1) '/' ++ ['.', '/'] ++ rest

/-- A text without backslashes stays as it is. -/
lemma slashed_of_notMem {text : List Char} (h : '\\' ∉ text) : slashed text = text := by
  unfold slashed
  refine (List.map_congr_left ?_).trans (List.map_id text)
  intro c hc
  refine if_neg ?_
  rintro rfl
  exact h hc

/-- What is left has no dot and slash in front, and only such were taken away. -/
lemma dropHere_eq_iff {text rest : List Char} :
    dropHere text = rest ↔ ¬ ['.', '/'] <+: rest ∧ ∃ count, text = heres count ++ rest := by
  refine Text.strip_eq_iff (List.cons_ne_nil _ _) (fun _ => rfl) ?_
  intro text hother
  refine dropHere.eq_2 text ?_
  rintro rest rfl
  exact hother ⟨rest, rfl⟩

/-- What is left has no slash in front, and only such were taken away. -/
lemma dropSlashes_eq_iff {text rest : List Char} :
    text.dropWhile (· == '/') = rest ↔
      ¬ ['/'] <+: rest ∧ ∃ count, text = List.replicate count '/' ++ rest := by
  have hother : ∀ text : List Char, ¬ ['/'] <+: text → text.dropWhile (· == '/') = text := by
    intro text hother
    cases text with
    | nil => rfl
    | cons c text =>
      refine List.dropWhile_cons_of_neg ?_
      rw [beq_iff_eq]
      rintro rfl
      exact hother (List.prefix_append ['/'] text)
  simpa only [List.flatten_replicate_singleton] using
    @Text.strip_eq_iff ['/'] (List.cons_ne_nil _ _) (List.dropWhile (· == '/')) (fun _ => rfl)
      hother text rest

/-- The normal form of a text is what is behind some `./` and then some slashes. It begins with no
slash, and with no `./` unless there are slashes in front of it. -/
lemma normalise_eq_iff {text rest : List Char} :
    normalise text = rest ↔ ¬ ['/'] <+: rest ∧ ∃ count more,
      slashed text = heres count ++ List.replicate more '/' ++ rest ∧
        (more = 0 → ¬ ['.', '/'] <+: rest) := by
  unfold normalise
  rw [dropSlashes_eq_iff]
  refine and_congr_right fun _ => ?_
  constructor
  · rintro ⟨more, hmore⟩
    obtain ⟨hhere, count, hcount⟩ := dropHere_eq_iff.mp hmore
    refine ⟨count, more, by rw [slashed, hcount, List.append_assoc], ?_⟩
    rintro rfl
    exact hhere
  · rintro ⟨count, more, htext, hzero⟩
    refine ⟨more, dropHere_eq_iff.mpr ⟨?_, count, by rw [← List.append_assoc]; exact htext⟩⟩
    cases more with
    | zero => exact hzero rfl
    | succ more => simp [List.replicate_succ]

/-! ## Normal forms -/

/-- A normal form begins with `./` again exactly if slashes were in front of that. -/
lemma here_prefix_normalise_iff (text : List Char) :
    ['.', '/'] <+: normalise text ↔ Resurfaces text := by
  constructor
  · rintro ⟨rest, hrest⟩
    obtain ⟨-, count, more, htext, hzero⟩ := normalise_eq_iff.mp hrest.symm
    cases more with
    | zero => exact absurd (List.prefix_append _ _) (hzero rfl)
    | succ more => exact ⟨count, more, rest, by rw [htext, ← List.append_assoc]⟩
  · rintro ⟨count, more, rest, htext⟩
    refine ⟨rest, (normalise_eq_iff.mpr ⟨?_, count, more + 1, ?_, ?_⟩).symm⟩
    · simp
    · rw [htext, List.append_assoc _ ['.', '/'] rest]
    · rintro ⟨⟩

/-- A text that begins with no slash and has no backslash is its own normal form exactly if it does
not begin with `./` either. -/
lemma normalise_eq_self_iff {text : List Char} (hback : '\\' ∉ text) (hslash : ¬ ['/'] <+: text) :
    normalise text = text ↔ ¬ ['.', '/'] <+: text := by
  rw [normalise_eq_iff, slashed_of_notMem hback]
  constructor
  · rintro ⟨-, count, more, htext, hzero⟩
    -- nothing was taken off
    have hmore : more = 0 := by
      have hlength := congrArg List.length htext
      simp only [List.length_append, List.length_replicate] at hlength
      omega
    exact hzero hmore
  · intro hhere
    exact ⟨hslash, 0, 0, rfl, fun _ => hhere⟩

/-- The text of a route is the normal form of the text it is made from. -/
lemma toList_ofText (text : String) : (ofText text).text.toList = normalise text.toList :=
  String.toList_ofList

/-- Routes are written without a slash in front. -/
lemma slash_not_prefix_ofText (text : String) : ¬ ['/'] <+: (ofText text).text.toList :=
  (normalise_eq_iff.mp (toList_ofText text).symm).1

/-- A route is the route of its own text exactly if no `./` came to light. -/
lemma ofText_ofText_iff (text : String) :
    ofText (ofText text).text = ofText text ↔ ¬ Resurfaces text.toList := by
  rw [← here_prefix_normalise_iff, ← toList_ofText, ← normalise_eq_self_iff
    (backslash_notMem_ofText text) (slash_not_prefix_ofText text), ← toList_ofText,
    String.toList_inj]
  constructor
  · exact congrArg Route.text
  · intro h
    exact congrArg Route.mk h

/-! ## The routes of files -/

/-- A path of which a `./` comes to light has a part `.` that is not its first. -/
lemma here_mem_of_resurfaces {text : List Char} (h : Resurfaces text) (hback : '\\' ∉ text) :
    ['.'] ∈ (Text.fields '/' text).tail := by
  obtain ⟨count, more, rest, htext⟩ := h
  rw [slashed_of_notMem hback, List.replicate_succ'] at htext
  have hsplit : text = heres count ++ List.replicate more '/' ++ '/' :: (['.'] ++ '/' :: rest) := by
    rw [htext]
    simp
  rw [hsplit, Text.fields_append_sep, Text.fields_append (by decide),
    List.tail_append_of_ne_nil (Text.fields_ne_nil _ _)]
  exact List.mem_append_right _ List.mem_cons_self

/-- The text that the components of a path are put together to. -/
def joined (components : List Path.Component) : List Char :=
  ['/'].intercalate (components.map fun component => component.text.toList)

section Joined

variable {path : Path} {components : List Path.Component}

/-- Components have a part `.` in front only. -/
lemma here_notMem_joined (h : components <:+ path.components) :
    ['.'] ∉ (Text.fields '/' (joined components)).tail := by
  have hpart {part : List Char} {component : Path.Component} (hmem : part ∈ path.parts)
      (hcomponent : Path.component? part = some component) :
      Text.fields '/' component.text.toList = [part] ∧ part ≠ ['.'] := by
    obtain ⟨htext, -, hdot⟩ := Path.text_of_component? hcomponent
    exact ⟨htext ▸ Text.fields_of_not_mem (htext ▸ Text.not_mem_of_mem_fields hmem), hdot⟩
  cases components with
  | nil => simp [joined, Text.fields]
  | cons first rest =>
    unfold joined
    rw [Text.fields_intercalate_flatMap (by simp), List.map_cons, List.flatMap_cons,
      List.tail_append_of_ne_nil (Text.fields_ne_nil _ _), List.flatMap_map]
    intro hmem
    rcases List.mem_append.mp hmem with hfirst | hrest
    · rcases Path.mem_components (h.subset List.mem_cons_self) with rfl | rfl | ⟨part, hmem, hsome⟩
      · exact absurd hfirst (by decide)
      · exact absurd hfirst (by decide)
      · rw [(hpart hmem hsome).1] at hfirst
        cases hfirst
    · obtain ⟨component, hcomponent, hfield⟩ := List.mem_flatMap.mp hrest
      obtain ⟨part, hmem, hsome⟩ := Path.exists_part_of_suffix h hcomponent
      obtain ⟨hfields, hdot⟩ := hpart hmem hsome
      rw [hfields] at hfield
      exact hdot (List.mem_singleton.mp hfield).symm

/-- The components of a path without backslashes have none when they are joined. -/
lemma backslash_notMem_joined (hback : '\\' ∉ path.text.toList) (h : components <:+ path.components) :
    '\\' ∉ joined components := by
  intro hmem
  obtain hsep | ⟨text, htext, hmem⟩ := mem_of_mem_intercalate hmem
  · exact absurd hsep (by decide)
  · obtain ⟨component, hcomponent, rfl⟩ := List.mem_map.mp htext
    rcases Path.mem_components (h.subset hcomponent) with rfl | rfl | ⟨part, hpart, hsome⟩
    · exact absurd hmem (by decide)
    · exact absurd hmem (by decide)
    · rw [(Path.text_of_component? hsome).1] at hmem
      have hbody := (Text.infix_of_mem_fields hpart).subset hmem
      split at hbody
      · exact hback ((List.drop_suffix _ _).subset hbody)
      · exact hback hbody

end Joined

/-- The texts of components with slashes between them are the joined components. -/
lemma intercalate_text (components : List Path.Component) :
    "/".intercalate (components.map Path.Component.text) = String.ofList (joined components) := by
  rw [← String.toList_inj, String.toList_intercalate, String.toList_ofList, String.toList_ofList,
    List.map_map]
  rfl

/-- The route of a file is put together of components of its path. -/
lemma exists_ofPath (root path : Path) :
    ∃ components, components <:+ path.components ∧
      ofPath root path = ofText (String.ofList (joined components)) := by
  refine ⟨(Path.below? root path).getD path.components, ?_, ?_⟩
  · unfold Path.below?
    split
    · exact List.drop_suffix _ _
    · exact List.suffix_refl _
  · exact congrArg ofText (intercalate_text _)

/-- The route of a file is the route of its own text, unless a name has a backslash. -/
lemma ofText_ofPath {path : Path} (hback : '\\' ∉ path.text.toList) (root : Path) :
    ofText (ofPath root path).text = ofPath root path := by
  obtain ⟨components, hsuffix, hroute⟩ := exists_ofPath root path
  rw [hroute, ofText_ofText_iff, String.toList_ofList]
  intro hresurfaces
  exact here_notMem_joined hsuffix
    (here_mem_of_resurfaces hresurfaces (backslash_notMem_joined hback hsuffix))

/-! ## Labels -/

/-- A route has no backslash and does not begin with a slash. It begins with `./` exactly if a `./`
came to light, and exactly then it is not the route of its own text. The routes of files are always
the routes of their own texts, unless a name has a backslash. -/
theorem ofText_normal_iff (text : String) :
    '\\' ∉ (ofText text).text.toList ∧ ¬ ['/'] <+: (ofText text).text.toList ∧
      (['.', '/'] <+: (ofText text).text.toList ↔ Resurfaces text.toList) ∧
      (ofText (ofText text).text = ofText text ↔ ¬ Resurfaces text.toList) ∧
      ∀ root path : Path, '\\' ∉ path.text.toList →
        ofText (ofPath root path).text = ofPath root path := by
  refine ⟨backslash_notMem_ofText text, slash_not_prefix_ofText text, ?_, ofText_ofText_iff text, ?_⟩
  · rw [toList_ofText]
    exact here_prefix_normalise_iff text.toList
  · intro root path hback
    exact ofText_ofPath hback root

/-- A path from outside of the project, with a `.` inside. -/
theorem ofText_normal_outside :
    '\\' ∉ "/srv/./lib/route.ts".toList ∧
      ofText (ofPath ⟨"app"⟩ ⟨"/srv/./lib/route.ts"⟩).text
        = ofPath ⟨"app"⟩ ⟨"/srv/./lib/route.ts"⟩ :=
  ⟨by decide, (ofText_normal_iff "").2.2.2.2 ⟨"app"⟩ ⟨"/srv/./lib/route.ts"⟩ (by decide)⟩

/-- The label of a route is the label of another one. -/
theorem ofText_shows_here :
    ofText "/./users/route.ts" = ⟨"./users/route.ts"⟩ ∧
      ofText "./users/route.ts" = ⟨"users/route.ts"⟩ ∧
      (⟨"./users/route.ts"⟩ : Route) ≠ ⟨"users/route.ts"⟩ := by
  decide

/-! ## Paths below the root -/

/-- A file below the root has the route that its path below the root denotes, however the root is
spelled. -/
theorem ofPath_join (root : Path) {parts : List String} (h : ∀ part ∈ parts, Path.IsPart part) :
    ofPath root (root.join ⟨"/".intercalate parts⟩) = ofText ("/".intercalate parts) := by
  obtain ⟨hlead, htexts⟩ := Path.text_components_of_isPart (p := ⟨"/".intercalate parts⟩) rfl h
  have hjoined : String.ofList (joined (Path.components ⟨"/".intercalate parts⟩))
      = "/".intercalate parts := by
    rw [joined, htexts, ← String.toList_inj, String.toList_intercalate, String.toList_ofList,
      String.toList_ofList]
  calc ofPath root (root.join ⟨"/".intercalate parts⟩)
    _ = ofText ("/".intercalate
          ((Path.components ⟨"/".intercalate parts⟩).map Path.Component.text)) := by
      unfold ofPath
      rw [Path.below?_join root hlead]
      rfl
    _ = ofText ("/".intercalate parts) := by rw [intercalate_text, hjoined]

/-- A path with a step up, a parameter and a backslash, below a root with dots in it. -/
theorem ofPath_join_dots :
    (∀ part ∈ ["..", "api", "[id]", "a\\b", "route.ts"], Path.IsPart part) ∧
      ofPath ⟨".//app/.././"⟩ (Path.join ⟨".//app/.././"⟩
          ⟨"/".intercalate ["..", "api", "[id]", "a\\b", "route.ts"]⟩)
        = ofText ("/".intercalate ["..", "api", "[id]", "a\\b", "route.ts"]) :=
  ⟨by decide, ofPath_join _ (by decide)⟩

end CachedRoutes.Route
