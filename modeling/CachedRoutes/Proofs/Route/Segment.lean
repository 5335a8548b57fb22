import CachedRoutes.Route
import CachedRoutes.Proofs.Text.Lines
import Mathlib.Data.List.Forall2

/-!
# What the directories of a route stand for

The directories below the last one named `api` are of three kinds: parameters in brackets, groups in
parentheses, and words. Here each kind is described by how it is written.

* **The last `api`** (`IsBelow`): where the directories that count start (`isBelow_apiSegments`).
* **Parameters** (`Declares`): single or double brackets, and any number of `...` in front of the name
  (`parameter?_eq_some_iff`). Brackets around nothing else declare no parameter. A name has neither
  slashes nor backslashes (`slashes_notMem_of_mem_parameters`).
* **Words** (`IsWord`): what is neither a parameter nor a group. A word is never empty.
* **Segments** (`segments`): the words and the parameters, groups left out. They are known from the
  words, the names and the forms of the segments (`segments_eq_iff`).
-/

namespace CachedRoutes

/-- The inner part of a text is what stands between its two ends. -/
lemma Text.between?_eq_some_iff {opening closing text inner : List Char} :
    Text.between? opening closing text = some inner ↔ text = opening ++ inner ++ closing := by
  unfold Text.between?
  constructor
  · intro h
    split at h
    · rename_i hopening
      obtain ⟨rest, rfl⟩ := List.isPrefixOf_iff_prefix.mp hopening
      rw [List.drop_left] at h
      dsimp only at h
      split at h
      · rename_i hclosing
        obtain ⟨found, rfl⟩ := List.isSuffixOf_iff_suffix.mp hclosing
        rw [List.length_append, Nat.add_sub_cancel, List.take_left, Option.some.injEq] at h
        rw [h, List.append_assoc]
      · simp at h
    · simp at h
  · rintro rfl
    simp

/-- A word is taken off the front of a text as often as it stands there. -/
lemma Text.strip_eq_iff {word : List Char} (hne : word ≠ []) {strip : List Char → List Char}
    (hword : ∀ rest, strip (word ++ rest) = strip rest)
    (hother : ∀ text, ¬ word <+: text → strip text = text) {text rest : List Char} :
    strip text = rest ↔
      ¬ word <+: rest ∧ ∃ count, text = (List.replicate count word).flatten ++ rest := by
  constructor
  · rintro rfl
    -- by the length of the text, one word after the other
    induction hn : text.length using Nat.strong_induction_on generalizing text with
    | _ n ih =>
      by_cases hstart : word <+: text
      · obtain ⟨more, rfl⟩ := hstart
        have hshort : more.length < n := by
          have := List.length_pos_iff.mpr hne
          simp only [List.length_append] at hn
          omega
        obtain ⟨hend, count, hmore⟩ := ih more.length hshort rfl
        rw [hword]
        refine ⟨hend, count + 1, ?_⟩
        rw [List.replicate_succ, List.flatten_cons, List.append_assoc, ← hmore]
      · rw [hother text hstart]
        exact ⟨hstart, 0, rfl⟩
  · rintro ⟨hend, count, rfl⟩
    induction count with
    | zero => exact hother rest hend
    | succ count ih =>
      rw [List.replicate_succ, List.flatten_cons, List.append_assoc, hword, ih]

namespace Route

/-! ## The last `api` -/

/-- `below` are the directories below the last one named `api`, or all of them when none is. -/
def IsBelow (directories below : List (List Char)) : Prop :=
  ['a', 'p', 'i'] ∉ below ∧
    (below = directories ∨ ∃ above, directories = above ++ ['a', 'p', 'i'] :: below)

/-- The segments of the interface are those below its directory. -/
lemma isBelow_apiSegments (route : Route) : IsBelow route.directories route.apiSegments := by
  unfold IsBelow apiSegments
  have hsplit := List.takeWhile_append_dropWhile (p := (· != ['a', 'p', 'i']))
    (l := route.directories.reverse)
  refine ⟨?_, ?_⟩
  · intro hmem
    have h := List.mem_takeWhile_imp (List.mem_reverse.mp hmem)
    simp at h
  · cases hrest : route.directories.reverse.dropWhile (· != ['a', 'p', 'i']) with
    | nil =>
      left
      rw [hrest, List.append_nil] at hsplit
      rw [hsplit, List.reverse_reverse]
    | cons directory above =>
      right
      -- what the search stops at is the last `api`
      have hapi : directory = ['a', 'p', 'i'] := by
        have hhead := List.head?_dropWhile_not (· != ['a', 'p', 'i']) route.directories.reverse
        simpa [hrest] using hhead
      refine ⟨above.reverse, ?_⟩
      have hwhole := congrArg List.reverse hsplit
      rw [hrest, hapi, List.reverse_append, List.reverse_reverse, List.reverse_cons] at hwhole
      simpa using hwhole.symm

/-- What is below the directory of the interface are its segments. -/
lemma apiSegments_of_isBelow {route : Route} {below : List (List Char)}
    (h : IsBelow route.directories below) : route.apiSegments = below := by
  obtain ⟨hapi, hbelow⟩ := h
  have hall : ∀ directory ∈ below.reverse, (directory != ['a', 'p', 'i']) = true := by
    intro directory hmem
    rw [bne_iff_ne]
    rintro rfl
    exact hapi (List.mem_reverse.mp hmem)
  unfold apiSegments
  rcases hbelow with rfl | ⟨above, habove⟩
  · rw [List.takeWhile_eq_self_iff.mpr hall, List.reverse_reverse]
  · rw [habove, List.reverse_append, List.reverse_cons, List.append_assoc,
      List.takeWhile_append_of_pos hall]
    simp

/-- The segments of the interface are directories of the route. -/
lemma mem_directories_of_mem_apiSegments {route : Route} {segment : List Char}
    (h : segment ∈ route.apiSegments) : segment ∈ route.directories := by
  rcases (isBelow_apiSegments route).2 with heq | ⟨above, habove⟩
  · exact heq ▸ h
  · rw [habove]
    exact List.mem_append_right _ (List.mem_cons_of_mem _ h)

/-- Directories have names, and the names stand between the slashes of the path. -/
lemma mem_directories {route : Route} {directory : List Char} (h : directory ∈ route.directories) :
    directory ≠ [] ∧ '/' ∉ directory ∧ directory <:+: route.text.toList := by
  have hmem := (List.dropLast_sublist _).subset h
  obtain ⟨hfield, hne⟩ := List.mem_filter.mp hmem
  exact ⟨by simpa using hne, Text.not_mem_of_mem_fields hfield, Text.infix_of_mem_fields hfield⟩

/-- What is left ends the text. -/
lemma dropHere_suffix (text : List Char) : dropHere text <:+ text := by
  fun_induction dropHere text with
  | case1 rest ih => exact ih.trans (List.suffix_append ['.', '/'] rest)
  | case2 text => exact List.suffix_refl text

/-- The normal form of a path has no backslash. -/
lemma backslash_notMem_ofText (text : String) : '\\' ∉ (ofText text).text.toList := by
  rw [ofText, String.toList_ofList, normalise]
  intro hmem
  have hmap := (dropHere_suffix _).subset ((List.dropWhile_suffix _).subset hmem)
  obtain ⟨c, -, hc⟩ := List.mem_map.mp hmap
  split at hc
  · exact absurd hc (by decide)
  · contradiction

/-! ## Parameters -/

/-- So many times three dots. -/
def ellipses (count : Nat) : List Char :=
  (List.replicate count ['.', '.', '.']).flatten

/-- What stands in the brackets of a segment. Where there are two on each side, both are taken off. -/
def Bracketed (segment inner : List Char) : Prop :=
  segment = ['[', '['] ++ inner ++ [']', ']'] ∨
    segment = ['['] ++ inner ++ [']'] ∧ ∀ other, segment ≠ ['[', '['] ++ other ++ [']', ']']

/-- The segment declares a parameter of the given name. -/
def Declares (segment name : List Char) : Prop :=
  name ≠ [] ∧ ¬ ['.', '.', '.'] <+: name ∧ ∃ count, Bracketed segment (ellipses count ++ name)

/-- What is left has no three dots in front, and only such were taken away. -/
lemma dropDots_eq_iff {text name : List Char} :
    dropDots text = name ↔ ¬ ['.', '.', '.'] <+: name ∧ ∃ count, text = ellipses count ++ name := by
  refine Text.strip_eq_iff (List.cons_ne_nil _ _) (fun _ => rfl) ?_
  intro text hother
  refine dropDots.eq_2 text ?_
  rintro rest rfl
  exact hother ⟨rest, rfl⟩

/-- Double brackets are tried first. -/
lemma between?_orElse_eq_some_iff {segment inner : List Char} :
    ((Text.between? ['[', '['] [']', ']'] segment).orElse fun _ =>
      Text.between? ['['] [']'] segment) = some inner ↔ Bracketed segment inner := by
  unfold Bracketed
  simp only [← Text.between?_eq_some_iff, ne_eq]
  cases Text.between? ['[', '['] [']', ']'] segment with
  | none => simp
  | some other => simp

/-- A parameter is found in a segment exactly if the segment declares it. -/
lemma parameter?_eq_some_iff {segment name : List Char} :
    parameter? segment = some name ↔ Declares segment name := by
  unfold parameter? Declares
  dsimp only
  constructor
  · intro h
    split at h
    · simp at h
    · rename_i hne
      obtain ⟨inner, hsome, hdrop⟩ := Option.map_eq_some_iff.mp h
      obtain ⟨hdots, count, rfl⟩ := dropDots_eq_iff.mp hdrop
      refine ⟨?_, hdots, count, between?_orElse_eq_some_iff.mp hsome⟩
      rintro rfl
      exact hne h
  · rintro ⟨hne, hdots, count, hbracketed⟩
    rw [between?_orElse_eq_some_iff.mpr hbracketed, Option.map_some,
      dropDots_eq_iff.mpr ⟨hdots, count, rfl⟩]
    split
    · rename_i heq
      exact absurd (Option.some.inj heq) hne
    · rfl

/-- The name of a parameter stands inside of its segment. -/
lemma Declares.inside {segment name : List Char} (h : Declares segment name) : name <:+: segment := by
  obtain ⟨-, -, count, rfl | ⟨rfl, -⟩⟩ := h
  · exact ⟨['[', '['] ++ ellipses count, [']', ']'], by simp⟩
  · exact ⟨['['] ++ ellipses count, [']'], by simp⟩

/-- A name has no slash, and no backslash. -/
lemma slashes_notMem_of_mem_parameters {text : String} {name : List Char}
    (h : name ∈ (ofText text).parameters) : '/' ∉ name ∧ '\\' ∉ name := by
  obtain ⟨segment, hsegment, hname⟩ := List.mem_filterMap.mp h
  obtain ⟨-, hslash, hpath⟩ := mem_directories (mem_directories_of_mem_apiSegments hsegment)
  have hinside := (parameter?_eq_some_iff.mp hname).inside
  refine ⟨fun hmem => hslash (hinside.subset hmem), fun hmem => ?_⟩
  exact backslash_notMem_ofText text (hpath.subset (hinside.subset hmem))

/-! ## Words -/

/-- The segment only groups files. -/
def IsGroup (segment : List Char) : Prop :=
  ∃ inner, segment = ['('] ++ inner ++ [')']

/-- The segment is neither a parameter nor a group. -/
def IsWord (segment : List Char) : Prop :=
  (∀ name, ¬ Declares segment name) ∧ ¬ IsGroup segment

/-- The test for groups is their description. -/
lemma isGroup_iff {segment : List Char} : isGroup segment = true ↔ IsGroup segment := by
  unfold isGroup IsGroup
  rw [Bool.and_eq_true, beq_iff_eq, beq_iff_eq]
  constructor
  · rintro ⟨hhead, hlast⟩
    obtain ⟨rest, rfl⟩ := List.head?_eq_some_iff.mp hhead
    obtain ⟨front, hfront⟩ := List.getLast?_eq_some_iff.mp hlast
    -- the two ends are different characters, so there are two of them
    cases front with
    | nil => simp at hfront
    | cons c inner =>
      obtain ⟨rfl, rfl⟩ := List.cons.inj hfront
      exact ⟨inner, rfl⟩
  · rintro ⟨inner, rfl⟩
    exact ⟨rfl, List.getLast?_concat⟩

/-- A word is a segment that is neither a parameter nor a group. -/
lemma isWord_iff {segment : List Char} :
    IsWord segment ↔ ((parameter? segment).isNone && !isGroup segment) = true := by
  rw [IsWord, ← isGroup_iff, Bool.and_eq_true, Option.isNone_iff_eq_none,
    Option.eq_none_iff_forall_ne_some]
  simp only [ne_eq, parameter?_eq_some_iff, Bool.not_eq_eq_eq_not, Bool.not_true, Bool.not_eq_true]

instance (segment : List Char) : Decidable (IsWord segment) :=
  decidable_of_iff' _ isWord_iff

/-- The words of a route are the directories that count and are words. -/
lemma keyWords_eq_filter (route : Route) :
    route.keyWords = route.apiSegments.filter fun segment => IsWord segment := by
  unfold keyWords
  refine List.filter_congr fun segment _ => ?_
  rw [Bool.eq_iff_iff, decide_eq_true_iff, isWord_iff]

/-- No word is empty. -/
lemma nil_notMem_keyWords (route : Route) : [] ∉ route.keyWords := by
  intro h
  exact (mem_directories (mem_directories_of_mem_apiSegments (List.mem_filter.mp h).1)).1 rfl

/-! ## Segments -/

/-- The words and the parameters of a route, in path order. -/
def segments (route : Route) : List (List Char) :=
  route.apiSegments.filter fun segment => !isGroup segment

/-- Brackets and parentheses do not go together. -/
lemma parameter?_of_isGroup {segment : List Char} (h : isGroup segment = true) :
    parameter? segment = none := by
  obtain ⟨inner, rfl⟩ := isGroup_iff.mp h
  rw [Option.eq_none_iff_forall_ne_some]
  intro name hname
  obtain ⟨-, -, count, hbracketed⟩ := parameter?_eq_some_iff.mp hname
  simp [Bracketed] at hbracketed

/-- The words of the key are the segments that declare no parameter. -/
lemma keyWords_eq_segments (route : Route) :
    route.keyWords = route.segments.filter fun segment => (parameter? segment).isNone := by
  unfold keyWords segments
  rw [List.filter_filter]

/-- The parameters are those that the segments declare. -/
lemma parameters_eq_segments (route : Route) :
    route.parameters = route.segments.filterMap parameter? := by
  unfold parameters segments
  rw [List.filterMap_filter]
  refine List.filterMap_congr fun segment _ => ?_
  cases hgroup : isGroup segment with
  | false => rfl
  | true => exact parameter?_of_isGroup hgroup

/-- Two segments are of the same form: both are words, or both declare a parameter, with the same
text in front of its name and behind it. -/
inductive SameForm : List Char → List Char → Prop where
  | word {a b : List Char} (ha : parameter? a = none) (hb : parameter? b = none) : SameForm a b
  | parameter (opening closing : List Char) {m n : List Char}
      (hm : parameter? (opening ++ m ++ closing) = some m)
      (hn : parameter? (opening ++ n ++ closing) = some n) :
      SameForm (opening ++ m ++ closing) (opening ++ n ++ closing)

/-- A segment has its own form. -/
lemma SameForm.refl (segment : List Char) : SameForm segment segment := by
  cases hname : parameter? segment with
  | none => exact .word hname hname
  | some name =>
    obtain ⟨opening, closing, rfl⟩ := (parameter?_eq_some_iff.mp hname).inside
    exact .parameter opening closing hname hname

/-- Segments of the same forms are the same if their words and names are. -/
lemma eq_of_sameForm {xs ys : List (List Char)} (h : List.Forall₂ SameForm xs ys)
    (hwords : (xs.filter fun segment => (parameter? segment).isNone)
      = ys.filter fun segment => (parameter? segment).isNone)
    (hnames : xs.filterMap parameter? = ys.filterMap parameter?) : xs = ys := by
  induction h with
  | nil => rfl
  | cons hform _ ih =>
    cases hform with
    | word ha hb =>
      simp only [List.filter_cons, List.filterMap_cons, ha, hb, Option.isNone_none, if_true,
        List.cons.injEq] at hwords hnames
      rw [hwords.1, ih hwords.2 hnames]
    | parameter opening closing hm hn =>
      simp only [List.filter_cons, List.filterMap_cons, hm, hn, Option.isNone_some,
        Bool.false_eq_true, if_false, List.cons.injEq] at hwords hnames
      rw [hnames.1, ih hwords hnames.2]

/-- **Segments are words, names and forms.** -/
lemma segments_eq_iff {a b : Route} :
    a.segments = b.segments ↔ List.Forall₂ SameForm a.segments b.segments ∧
      a.keyWords = b.keyWords ∧ a.parameters = b.parameters := by
  rw [keyWords_eq_segments, keyWords_eq_segments, parameters_eq_segments, parameters_eq_segments]
  constructor
  · intro h
    rw [h]
    exact ⟨List.forall₂_same.mpr fun segment _ => .refl segment, rfl, rfl⟩
  · rintro ⟨hforms, hwords, hnames⟩
    exact eq_of_sameForm hforms hwords hnames

end Route

end CachedRoutes
