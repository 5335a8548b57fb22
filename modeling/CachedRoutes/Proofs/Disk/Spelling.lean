import CachedRoutes.Path
import CachedRoutes.Proofs.Text.Lines
import Mathlib.Data.List.Infix

/-!
# How paths are spelled

What the operations on paths do to their parts. A relative path below a path has its parts behind
those of that path (`exists_parts_join`). The paths that enclose a path are beginnings of its spelling
(`exists_of_mem_enclosing`), and their parts are a beginning of its parts (`parts_ofReversed`).
-/

namespace CachedRoutes

/-! ## Below a path -/

namespace Path

/-- A path has a part, even if that is empty. -/
lemma parts_ne_nil (p : Path) : p.parts ≠ [] := Text.fields_ne_nil _ _

/-- The spelling without the leading separator of an absolute path. -/
def body (p : Path) : List Char :=
  if p.isAbsolute then p.text.toList.drop 1 else p.text.toList

/-- A longer text is absolute if its beginning is. -/
lemma isAbsolute_append {text : String} (hne : text.toList ≠ []) (back : String) :
    (Path.mk (text ++ back)).isAbsolute = (Path.mk text).isAbsolute := by
  unfold isAbsolute
  rw [String.toList_append, List.head?_append_of_ne_nil _ hne]

/-- A longer text has the longer body. -/
lemma body_append {text : String} (hne : text.toList ≠ []) (back : String) :
    (Path.mk (text ++ back)).body = (Path.mk text).body ++ back.toList := by
  obtain ⟨first, rest, htext⟩ := List.exists_cons_of_ne_nil hne
  unfold body
  rw [isAbsolute_append hne, String.toList_append, htext]
  split <;> rfl

/-- A separator at the end is the leading one or belongs to the body. -/
lemma body_of_getLast? {text : String} (h : text.toList.getLast? = some '/') :
    (Path.mk text).body = [] ∨ ∃ front, (Path.mk text).body = front ++ ['/'] := by
  obtain ⟨front, hfront⟩ := List.getLast?_eq_some_iff.mp h
  unfold body
  rw [hfront]
  cases front with
  | nil => exact Or.inl (by simp [isAbsolute, hfront])
  | cons first rest =>
    right
    split
    · exact ⟨rest, rfl⟩
    · exact ⟨first :: rest, rfl⟩

/-- A path that begins like a name is relative. -/
lemma isAbsolute_eq_false {p : Path} {name : List Char} (hne : name ≠ []) (hname : '/' ∉ name)
    (hhead : p.text.toList.head? = name.head?) : p.isAbsolute = false := by
  obtain ⟨first, rest, rfl⟩ := List.exists_cons_of_ne_nil hne
  have hfirst : first ≠ '/' := by
    rintro rfl
    exact hname List.mem_cons_self
  simp [isAbsolute, hhead, hfirst]

/-- A name is a relative path with one part. -/
lemma parts_name {name : String} (hne : name.toList ≠ []) (hname : '/' ∉ name.toList) :
    (Path.mk name).isAbsolute = false ∧ (Path.mk name).parts = [name.toList] := by
  have hrelative : (Path.mk name).isAbsolute = false := isAbsolute_eq_false hne hname rfl
  refine ⟨hrelative, ?_⟩
  simpa [parts, hrelative] using Text.fields_of_not_mem hname

/-- The parts of a relative path below another one come behind the parts of that one, in place of an
empty part at its end. -/
lemma exists_parts_join (p : Path) {q : Path} (hrelative : q.isAbsolute = false) :
    (p.join q).isAbsolute = p.isAbsolute ∧
      ∃ front, (p.join q).parts = front ++ q.parts ∧
        (p.parts = front ∨ p.parts = front ++ [[]]) := by
  have hfields : Text.fields '/' q.text.toList = q.parts := by simp [parts, hrelative]
  obtain ⟨text⟩ := p
  unfold join
  rw [if_neg (by simp [hrelative])]
  by_cases htext : text.toList = []
  · obtain rfl : text = "" := String.toList_inj.mp htext
    refine ⟨?_, [], ?_, Or.inr rfl⟩
    · simpa using hrelative.trans (show false = (Path.mk "").isAbsolute from rfl)
    · simp
  · have hempty : text.isEmpty = false := by simpa using htext
    have hparts (back : String) :
        (Path.mk (text ++ back)).parts = Text.fields '/' ((Path.mk text).body ++ back.toList) :=
      congrArg (Text.fields '/') (body_append htext back)
    by_cases hlast : text.toList.getLast? = some '/'
    · rw [if_pos (by simp [hlast])]
      refine ⟨isAbsolute_append htext _, ?_⟩
      rw [hparts]
      -- the separator at the end leaves an empty part, which the further parts take the place of
      obtain hbody | ⟨front, hbody⟩ := body_of_getLast? hlast
      · exact ⟨[], by rw [hbody]; exact hfields, Or.inr (congrArg (Text.fields '/') hbody)⟩
      · refine ⟨Text.fields '/' front, ?_, Or.inr ?_⟩
        · rw [hbody, List.append_assoc, List.singleton_append, Text.fields_append_sep, hfields]
        · exact (congrArg (Text.fields '/') hbody).trans (Text.fields_append_sep _ front [])
    · rw [if_neg (by simp [hlast, hempty]), String.append_assoc]
      refine ⟨isAbsolute_append htext _, Text.fields '/' (Path.mk text).body, ?_, Or.inl rfl⟩
      rw [hparts, String.toList_append]
      exact (Text.fields_append_sep _ _ _).trans (congrArg _ hfields)

/-! ## The spellings of the ancestors -/

/-- Settling only takes reversed parts away in front. -/
lemma settle_suffix (absolute : Bool) (rev : List (List Char)) : settle absolute rev <:+ rev := by
  fun_induction settle absolute rev with
  | case1 => exact List.suffix_rfl
  | case2 part hblank => exact List.nil_suffix
  | case3 part hblank => exact List.suffix_rfl
  | case4 part next rest hblank ih => exact ih.trans (List.suffix_cons part _)
  | case5 part next rest hblank => exact List.suffix_rfl

/-- The reversed parts can be told apart again once they are put together. -/
structure Separable (absolute : Bool) (rev : List (List Char)) : Prop where
  noSeparator : ∀ part ∈ rev, '/' ∉ part
  first_ne_nil : absolute = false → rev.getLast? ≠ some []

/-- The first parts of a separable path are separable. -/
lemma Separable.suffix {absolute : Bool} {rev back : List (List Char)}
    (h : Separable absolute rev) (hback : back <:+ rev) : Separable absolute back := by
  refine ⟨fun part hpart => h.noSeparator part (hback.subset hpart), ?_⟩
  intro hrelative hnil
  obtain ⟨front, rfl⟩ := hback
  apply h.first_ne_nil hrelative
  rw [List.getLast?_append, hnil]
  rfl

/-- The settled parts of a path are separable. -/
lemma separable_settle (p : Path) :
    Separable p.isAbsolute (settle p.isAbsolute p.parts.reverse) := by
  by_cases hempty : p.isAbsolute = false ∧ p.text.toList = []
  · have hparts : p.parts = [[]] := by simp [parts, hempty, Text.fields]
    rw [hparts, hempty.1]
    exact ⟨by simp [settle], by simp [settle]⟩
  · refine Separable.suffix ⟨?_, ?_⟩ (settle_suffix _ _)
    · intro part hpart
      exact Text.not_mem_of_mem_fields (List.mem_reverse.mp hpart)
    · intro hrelative hnil
      obtain ⟨first, rest, htext⟩ := List.exists_cons_of_ne_nil fun h => hempty ⟨hrelative, h⟩
      obtain ⟨field, others, hfield⟩ :=
        List.exists_cons_of_ne_nil (Text.fields_ne_nil '/' rest)
      have hfirst : first ≠ '/' := by
        rintro rfl
        simp [isAbsolute, htext] at hrelative
      simp [parts, hrelative, htext, Text.fields, hfirst, hfield] at hnil

/-- A path made of separable parts is absolute if it was meant to be. -/
lemma isAbsolute_ofReversed {absolute : Bool} {rev : List (List Char)}
    (h : Separable absolute rev) : (ofReversed absolute rev).isAbsolute = absolute := by
  cases absolute with
  | true => simp [ofReversed, isAbsolute]
  | false =>
    rcases List.eq_nil_or_concat rev with rfl | ⟨front, first, rfl⟩
    · rfl
    · have hfirst : first ≠ [] := by
        rintro rfl
        exact h.first_ne_nil rfl (by simp)
      obtain ⟨c, cs, rfl⟩ := List.exists_cons_of_ne_nil hfirst
      have hc : c ≠ '/' := by
        rintro rfl
        exact h.noSeparator ('/' :: cs) (by simp) List.mem_cons_self
      cases hrest : front.reverse with
      | nil => simp [ofReversed, isAbsolute, hrest, hc]
      | cons next rest => simp [ofReversed, isAbsolute, hrest, hc]

/-- A path made of separable parts has these parts. -/
lemma parts_ofReversed {absolute : Bool} {rev : List (List Char)} (h : Separable absolute rev) :
    (ofReversed absolute rev).parts = if rev = [] then [[]] else rev.reverse := by
  have hbody : (ofReversed absolute rev).body = ['/'].intercalate rev.reverse := by
    unfold body
    rw [isAbsolute_ofReversed h]
    cases absolute <;> simp [ofReversed]
  show Text.fields '/' (ofReversed absolute rev).body = _
  rw [hbody]
  split
  · next hnil =>
    rw [hnil]
    rfl
  · next hne =>
    apply Text.fields_intercalate
    · simpa using hne
    · intro part hpart
      exact h.noSeparator part (List.mem_reverse.mp hpart)

/-- An enclosing path is a beginning of the spelling. -/
lemma exists_of_mem_enclosing {absolute : Bool} {rev : List (List Char)} {p : Path}
    (h : p ∈ enclosing absolute rev) : ∃ back, back <:+ rev ∧ p = ofReversed absolute back := by
  fun_induction enclosing absolute rev with
  | case1 => cases h
  | case2 part rest ih =>
    have hback : settle absolute rest <:+ part :: rest :=
      (settle_suffix absolute rest).trans (List.suffix_cons part rest)
    rcases List.mem_cons.mp h with rfl | hmem
    · exact ⟨_, hback, rfl⟩
    · obtain ⟨back, hsuffix, hp⟩ := ih hmem
      exact ⟨back, hsuffix.trans hback, hp⟩

end Path

end CachedRoutes
