import CachedRoutes.Eligibility
import CachedRoutes.Proofs.Text.Lines

/-!
# A handler survives edits around it

Whether a file exports a `GET` handler is decided by one stretch of text at the start of a line, the
declaration up to the mark behind `GET`. Only few characters can stand in it (`isDeclarationChar`),
so an edit that starts at another character cannot cut a declaration in two.

* **Decided by a beginning** (`exportsGet_decided`): a line that exports the handler has a beginning
  of declaration characters that exports it whatever follows.
* **Replacing inside a line** (`hasGetHandler_replace`): behind a character that is not one of them,
  the rest of the line may be replaced. No handler is made by this, unless a new line exports one
  (`hasGetHandler_replace_eq`).
-/

namespace CachedRoutes.Eligibility

/-- Characters that can stand in the declaration of an exported handler: blanks, the letters of its
words, and the marks behind `GET`. -/
def isDeclarationChar (c : Char) : Bool :=
  Text.isBlank c || "exportasyncfunctionGETconstlet(<:=".toList.contains c

/-- The test holds of every text with some beginning of `text`, which consists of declaration
characters and does not start with a blank. -/
def Decided (test : List Char → Bool) (text : List Char) : Prop :=
  ∃ declaration rest, text = declaration ++ rest ∧
    (∀ c ∈ declaration, isDeclarationChar c = true) ∧
    (∃ c ∈ declaration.head?, Text.isBlank c = false) ∧
    ∀ more, test (declaration ++ more) = true

/-! ## One word after the other -/

/-- The characters of a word of the declaration. -/
lemma isDeclarationChar_of_mem {word : List Char} {c : Char}
    (hword : word.all isDeclarationChar = true) (hc : c ∈ word) : isDeclarationChar c = true :=
  List.all_eq_true.mp hword c hc

/-- Blanks may stand in a declaration. -/
lemma isDeclarationChar_of_isBlank {c : Char} (h : Text.isBlank c = true) :
    isDeclarationChar c = true := by
  simp [isDeclarationChar, h]

/-- A word with a blank behind it is cut off together with all blanks. -/
lemma afterSpaced?_eq_some_iff {word : String} {text rest : List Char} :
    afterSpaced? word text = some rest ↔
      ∃ gap, text = word.toList ++ gap ++ rest ∧ gap ≠ [] ∧
        (∀ c ∈ gap, Text.isBlank c = true) ∧ ∀ c ∈ rest.head?, Text.isBlank c = false := by
  constructor
  · intro h
    unfold afterSpaced? at h
    split at h
    · rename_i c tail ha
      split at h
      · rename_i hc
        obtain rfl := Option.some.inj h
        obtain ⟨gap, htail, hgap, hrest⟩ := Text.trimStart_gap tail
        refine ⟨c :: gap, ?_, by simp, ?_, hrest⟩
        · rw [Text.after?_eq_some_iff.mp ha]
          conv_lhs => rw [htail]
          simp
        · intro d hd
          rcases List.mem_cons.mp hd with rfl | hd
          · exact hc
          · exact hgap d hd
      · simp at h
    · simp at h
  · rintro ⟨gap, rfl, hne, hgap, hrest⟩
    cases gap with
    | nil => exact absurd rfl hne
    | cons c gap =>
      have hc : Text.isBlank c = true := hgap c (by simp)
      have htrim : Text.trimStart (gap ++ rest) = rest :=
        Text.trimStart_append (fun d hd => hgap d (by simp [hd])) hrest
      simp [afterSpaced?, hc, htrim]

/-- A test of what follows a word is decided by the word, the blanks and a beginning of the rest. -/
lemma decided_afterSpaced? {word : String} {test : List Char → Bool} {text rest : List Char}
    (hword : word.toList.all isDeclarationChar = true)
    (hhead : ∃ c ∈ word.toList.head?, Text.isBlank c = false)
    (h : afterSpaced? word text = some rest) (hd : Decided test rest) :
    Decided (fun text => (afterSpaced? word text).any test) text := by
  obtain ⟨gap, rfl, hne, hgap, -⟩ := afterSpaced?_eq_some_iff.mp h
  obtain ⟨declaration, tail, rfl, hchars, ⟨c, hc, hblank⟩, htest⟩ := hd
  refine ⟨word.toList ++ gap ++ declaration, tail, by simp, ?_, ?_, ?_⟩
  · intro d hd
    rcases List.mem_append.mp hd with hd | hd
    · rcases List.mem_append.mp hd with hd | hd
      · exact isDeclarationChar_of_mem hword hd
      · exact isDeclarationChar_of_isBlank (hgap d hd)
    · exact hchars d hd
  · obtain ⟨d, hd, hdblank⟩ := hhead
    refine ⟨d, ?_, hdblank⟩
    rw [List.append_assoc, List.head?_append, Option.mem_def.mp hd]
    rfl
  · intro more
    have hcut : afterSpaced? word (word.toList ++ gap ++ declaration ++ more)
        = some (declaration ++ more) := by
      refine afterSpaced?_eq_some_iff.mpr ⟨gap, by simp, hne, hgap, ?_⟩
      intro d hd
      rw [List.head?_append, Option.mem_def.mp hc] at hd
      obtain rfl : c = d := by simpa using hd
      exact hblank
    simp only [hcut, Option.any_some]
    exact htest more

/-- The name and the mark behind it decide that a text names the handler. -/
lemma decided_namesGet {marks text : List Char} (hmarks : marks.all isDeclarationChar = true)
    (hblank : marks.all (fun c => !Text.isBlank c) = true) (h : namesGet marks text = true) :
    Decided (namesGet marks) text := by
  unfold namesGet at h
  split at h
  · rename_i tail ha
    obtain ⟨gap, htail, hgap, -⟩ := Text.trimStart_gap tail
    rw [Option.any_eq_true] at h
    obtain ⟨c, hc, hmark⟩ := h
    have hmem : c ∈ marks := by simpa using hmark
    obtain ⟨rest, hrest⟩ : ∃ rest, Text.trimStart tail = c :: rest := by
      cases ht : Text.trimStart tail with
      | nil => simp [ht] at hc
      | cons d rest =>
        obtain rfl : d = c := by simpa [ht] using hc
        exact ⟨rest, rfl⟩
    refine ⟨"GET".toList ++ gap ++ [c], rest, ?_, ?_, ⟨'G', rfl, by decide⟩, ?_⟩
    · rw [Text.after?_eq_some_iff.mp ha, htail, hrest]
      simp
    · intro d hd
      rcases List.mem_append.mp hd with hd | hd
      · rcases List.mem_append.mp hd with hd | hd
        · exact isDeclarationChar_of_mem (by decide) hd
        · exact isDeclarationChar_of_isBlank (hgap d hd)
      · obtain rfl := List.mem_singleton.mp hd
        exact isDeclarationChar_of_mem hmarks hmem
    · intro more
      have htrim : Text.trimStart (gap ++ c :: more) = c :: more :=
        Text.trimStart_append hgap (by simpa using List.all_eq_true.mp hblank c hmem)
      have hcut : Text.after? "GET".toList ("GET".toList ++ gap ++ [c] ++ more)
          = some (gap ++ c :: more) := Text.after?_eq_some_iff.mpr (by simp)
      simp only [namesGet, hcut, htrim, List.head?_cons, Option.any_some]
      exact hmark
  · simp at h

/-! ## The declaration as a whole -/

/-- A test that is decided decides every test that it implies. -/
lemma Decided.mono {p q : List Char → Bool} {text : List Char} (hd : Decided p text)
    (h : ∀ text, p text = true → q text = true) : Decided q text := by
  obtain ⟨declaration, rest, htext, hchars, hhead, hp⟩ := hd
  exact ⟨declaration, rest, htext, hchars, hhead, fun more => h _ (hp more)⟩

/-- A text that starts with one word does not start with another one. -/
lemma afterSpaced?_eq_none_of_head {word other : String} {text rest : List Char}
    (h : afterSpaced? word text = some rest)
    (hne : word.toList.head? ≠ other.toList.head?) (hword : word.toList ≠ [])
    (hother : other.toList ≠ []) : afterSpaced? other text = none := by
  rw [Option.eq_none_iff_forall_ne_some]
  intro tail ht
  obtain ⟨gap, rfl, -, -, -⟩ := afterSpaced?_eq_some_iff.mp h
  obtain ⟨gap', heq, -, -, -⟩ := afterSpaced?_eq_some_iff.mp ht
  obtain ⟨c, w, hw⟩ := List.exists_cons_of_ne_nil hword
  obtain ⟨d, v, hv⟩ := List.exists_cons_of_ne_nil hother
  rw [hw, hv] at heq hne
  simp only [List.cons_append] at heq
  exact hne (congrArg some (List.cons.inj heq).1)

/-- Whether a function is declared is decided by the declaration alone. -/
lemma decided_declaresFunction {text : List Char} (h : declaresFunction text = true) :
    Decided declaresFunction text := by
  -- what stands behind an optional `async`
  have hfunction : ∀ text, (afterSpaced? "function" text).any (namesGet ['(', '<']) = true →
      Decided (fun text => (afterSpaced? "function" text).any (namesGet ['(', '<'])) text := by
    intro text h
    obtain ⟨rest, hrest, hget⟩ := Option.any_eq_true _ _ |>.mp h
    exact decided_afterSpaced? (by decide) ⟨'f', rfl, by decide⟩ hrest
      (decided_namesGet (by decide) (by decide) hget)
  cases hasync : afterSpaced? "async" text with
  | some rest =>
    have hrest : (afterSpaced? "function" rest).any (namesGet ['(', '<']) = true := by
      simpa [declaresFunction, hasync] using h
    refine (decided_afterSpaced? (by decide) ⟨'a', rfl, by decide⟩ hasync
      (hfunction rest hrest)).mono ?_
    intro text ht
    obtain ⟨tail, htail, hget⟩ := Option.any_eq_true _ _ |>.mp ht
    simpa [declaresFunction, Option.mem_def.mp htail] using hget
  | none =>
    have hrest : (afterSpaced? "function" text).any (namesGet ['(', '<']) = true := by
      simpa [declaresFunction, hasync] using h
    refine (hfunction text hrest).mono ?_
    intro text ht
    obtain ⟨tail, htail, -⟩ := Option.any_eq_true _ _ |>.mp ht
    have hnone : afterSpaced? "async" text = none :=
      afterSpaced?_eq_none_of_head htail (by decide) (by decide) (by decide)
    simpa [declaresFunction, hnone] using ht

/-- Whether a variable is declared is decided by the declaration alone. -/
lemma decided_declaresVariable {text : List Char} (h : declaresVariable text = true) :
    Decided declaresVariable text := by
  have hget : ∀ rest, namesGet [':', '='] rest = true → Decided (namesGet [':', '=']) rest :=
    fun rest => decided_namesGet (by decide) (by decide)
  cases hconst : afterSpaced? "const" text with
  | some rest =>
    have hrest : namesGet [':', '='] rest = true := by simpa [declaresVariable, hconst] using h
    refine (decided_afterSpaced? (by decide) ⟨'c', rfl, by decide⟩ hconst (hget rest hrest)).mono ?_
    intro text ht
    obtain ⟨tail, htail, htget⟩ := Option.any_eq_true _ _ |>.mp ht
    simpa [declaresVariable, Option.mem_def.mp htail] using htget
  | none =>
    have hlet : (afterSpaced? "let" text).any (namesGet [':', '=']) = true := by
      simpa [declaresVariable, hconst] using h
    obtain ⟨rest, hrest, hnames⟩ := Option.any_eq_true _ _ |>.mp hlet
    refine (decided_afterSpaced? (by decide) ⟨'l', rfl, by decide⟩ hrest (hget rest hnames)).mono ?_
    intro text ht
    obtain ⟨tail, htail, -⟩ := Option.any_eq_true _ _ |>.mp ht
    have hnone : afterSpaced? "const" text = none :=
      afterSpaced?_eq_none_of_head htail (by decide) (by decide) (by decide)
    simpa [declaresVariable, hnone] using ht

/-- **A line exports the handler by a beginning of it.** The indentation belongs to that beginning. -/
lemma exportsGet_decided {line : List Char} (h : exportsGet line = true) :
    ∃ declaration rest, line = declaration ++ rest ∧
      (∀ c ∈ declaration, isDeclarationChar c = true) ∧
      ∀ more, exportsGet (declaration ++ more) = true := by
  have hd : Decided (fun text => (afterSpaced? "export" text).any fun text =>
      declaresFunction text || declaresVariable text) (line.dropWhile Text.isIndent) := by
    obtain ⟨rest, hrest, hor⟩ := Option.any_eq_true _ _ |>.mp h
    refine decided_afterSpaced? (by decide) ⟨'e', rfl, by decide⟩ hrest ?_
    rcases Bool.or_eq_true_iff.mp hor with hf | hv
    · exact (decided_declaresFunction hf).mono fun text ht => by simp [ht]
    · exact (decided_declaresVariable hv).mono fun text ht => by simp [ht]
  obtain ⟨declaration, rest, hline, hchars, ⟨c, hc, hblank⟩, htest⟩ := hd
  have hindent : ∀ c ∈ line.takeWhile Text.isIndent, Text.isIndent c = true :=
    fun c hc => List.mem_takeWhile_imp hc
  refine ⟨line.takeWhile Text.isIndent ++ declaration, rest, ?_, ?_, ?_⟩
  · rw [List.append_assoc, ← hline, List.takeWhile_append_dropWhile]
  · intro d hd
    rcases List.mem_append.mp hd with hd | hd
    · exact isDeclarationChar_of_isBlank (Text.isBlank_of_isIndent (hindent d hd))
    · exact hchars d hd
  · intro more
    have hcut : (line.takeWhile Text.isIndent ++ declaration ++ more).dropWhile Text.isIndent
        = declaration ++ more := by
      rw [List.append_assoc]
      refine dropWhile_run hindent ?_
      intro d hd
      rw [List.head?_append, Option.mem_def.mp hc] at hd
      obtain rfl : c = d := by simpa using hd
      by_contra hi
      rw [Bool.not_eq_false] at hi
      rw [Text.isBlank_of_isIndent hi] at hblank
      exact Bool.noConfusion hblank
    unfold exportsGet
    rw [hcut]
    exact htest more

/-! ## Edits -/

/-- Behind a character that no declaration has, a line may go on in any way. -/
lemma exportsGet_replace {x y z : List Char} {q : Char} (hq : isDeclarationChar q = false)
    (h : exportsGet (x ++ q :: y) = true) : exportsGet (x ++ z) = true := by
  obtain ⟨declaration, rest, hline, hchars, hexports⟩ := exportsGet_decided h
  have hstart : declaration <+: x := by
    refine Text.prefix_of_not_mem (c := q) (b := y) ⟨rest, hline.symm⟩ ?_
    intro hmem
    rw [hchars q hmem] at hq
    exact Bool.noConfusion hq
  obtain ⟨tail, rfl⟩ := hstart
  rw [List.append_assoc]
  exact hexports (tail ++ z)

/-- There is a handler exactly if some line starts with its export. -/
lemma hasGetHandler_iff {text : List Char} :
    hasGetHandler text = true ↔ ∃ line ∈ Text.lineStarts text, exportsGet line = true := by
  rw [hasGetHandler, List.any_eq_true]

/-- **Replacing the rest of a line.** Behind a character `q` that no declaration has, a stretch
without a line feed may be replaced by any text: a handler in front of `q` ends in front of it, and
a handler behind the stretch starts at a line feed behind it. -/
lemma hasGetHandler_replace {a mid mid' b : List Char} {q : Char}
    (hq : isDeclarationChar q = false) (hmid : '\n' ∉ q :: mid)
    (h : hasGetHandler (a ++ (q :: mid ++ b)) = true) :
    hasGetHandler (a ++ (q :: mid' ++ b)) = true := by
  rw [hasGetHandler_iff] at h ⊢
  obtain ⟨line, hline, hexports⟩ := h
  rw [Text.lineStarts_append, Text.afterLineFeeds_append, Text.afterLineFeeds_eq_nil hmid,
    List.map_nil, List.nil_append, List.mem_append] at hline
  rcases hline with hline | hline
  · obtain ⟨x, hx, rfl⟩ := List.mem_map.mp hline
    refine ⟨x ++ (q :: mid' ++ b), ?_, exportsGet_replace hq hexports⟩
    rw [Text.lineStarts_append]
    exact List.mem_append_left _ (List.mem_map_of_mem hx)
  · refine ⟨line, ?_, hexports⟩
    rw [Text.lineStarts_append, Text.afterLineFeeds_append]
    exact List.mem_append_right _ (List.mem_append_right _ hline)

/-- **Nor is a handler made in this way,** if none of the new lines exports one. -/
lemma hasGetHandler_replace_eq {a mid mid' b : List Char} {q : Char}
    (hq : isDeclarationChar q = false) (hmid : '\n' ∉ q :: mid)
    (hlines : ∀ line ∈ Text.afterLineFeeds mid', exportsGet (line ++ b) = false) :
    hasGetHandler (a ++ (q :: mid' ++ b)) = hasGetHandler (a ++ (q :: mid ++ b)) := by
  rw [Bool.eq_iff_iff]
  refine ⟨?_, hasGetHandler_replace hq hmid⟩
  intro h
  have hfeed : q ≠ '\n' := by
    rintro rfl
    simp at hmid
  rw [hasGetHandler_iff] at h ⊢
  obtain ⟨line, hline, hexports⟩ := h
  rw [Text.lineStarts_append, Text.afterLineFeeds_append, Text.afterLineFeeds, if_neg hfeed,
    List.mem_append, List.mem_append] at hline
  rcases hline with hline | hline | hline
  · obtain ⟨x, hx, rfl⟩ := List.mem_map.mp hline
    refine ⟨x ++ (q :: mid ++ b), ?_, exportsGet_replace hq hexports⟩
    rw [Text.lineStarts_append]
    exact List.mem_append_left _ (List.mem_map_of_mem hx)
  · obtain ⟨x, hx, rfl⟩ := List.mem_map.mp hline
    rw [hlines x hx] at hexports
    exact Bool.noConfusion hexports
  · refine ⟨line, ?_, hexports⟩
    rw [Text.lineStarts_append, Text.afterLineFeeds_append]
    exact List.mem_append_right _ (List.mem_append_right _ hline)

end CachedRoutes.Eligibility
