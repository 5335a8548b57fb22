import CachedRoutes.Proofs.Disk.Spelling

/-!
# The components of a path

A path is a component that says where it starts, if there is one, and then its parts that name
something (`components_eq`). So the components of `base.join p` are those of `base` and then those of
`p`, however `base` is spelled, unless `p` starts somewhere itself (`components_join`), and what is
below `base` are the components of `p` (`below?_join`).
-/

namespace CachedRoutes.Path

/-- The component that says where a path starts: the root, or a `.` that it begins with. -/
def lead (p : Path) : List Component :=
  if p.isAbsolute then [.root] else if p.parts.head? = some ['.'] then [.here] else []

/-- The components are the lead of the path and those of its parts. -/
lemma components_eq (p : Path) : p.components = p.lead ++ p.parts.filterMap component? := by
  unfold components lead
  split
  · rfl
  · split
    · next rest hparts =>
      rw [hparts]
      rfl
    · next parts hother =>
      rw [if_neg]
      · rfl
      · intro hhead
        obtain ⟨rest, hrest⟩ := List.head?_eq_some_iff.mp hhead
        exact hother rest hrest

/-- A path without a lead is not absolute. -/
lemma isAbsolute_of_lead {p : Path} (h : p.lead = []) : p.isAbsolute = false := by
  unfold lead at h
  split at h
  · cases h
  · next hrelative => simpa using hrelative

/-- A component other than the leading one is written as its part, which is neither empty nor `.`. -/
lemma text_of_component? {part : List Char} {component : Component}
    (h : component? part = some component) :
    component.text.toList = part ∧ part ≠ [] ∧ part ≠ ['.'] := by
  unfold component? at h
  split at h
  · cases h
  · next hpart =>
    simp only [Bool.or_eq_true, decide_eq_true_eq, not_or] at hpart
    refine ⟨?_, hpart⟩
    split at h
    · next hup =>
      obtain rfl := Option.some.inj h
      exact hup.symm
    · obtain rfl := Option.some.inj h
      exact String.toList_ofList

/-- Every part that is neither empty nor `.` is a component. -/
lemma exists_component? {part : List Char} (hne : part ≠ []) (hdot : part ≠ ['.']) :
    ∃ component, component? part = some component := by
  unfold component?
  rw [if_neg (by simp [hne, hdot])]
  split <;> exact ⟨_, rfl⟩

/-- A component says where the path starts, or it is one of the parts. -/
lemma mem_components {p : Path} {component : Component} (h : component ∈ p.components) :
    component = .root ∨ component = .here ∨ ∃ part ∈ p.parts, component? part = some component := by
  rw [components_eq] at h
  rcases List.mem_append.mp h with hlead | hpart
  · unfold lead at hlead
    split at hlead
    · exact .inl (List.mem_singleton.mp hlead)
    · split at hlead
      · exact .inr (.inl (List.mem_singleton.mp hlead))
      · cases hlead
  · exact .inr (.inr (List.mem_filterMap.mp hpart))

/-- Behind another component there are only parts. -/
lemma exists_part_of_suffix {p : Path} {first component : Component} {rest : List Component}
    (h : first :: rest <:+ p.components) (hmem : component ∈ rest) :
    ∃ part ∈ p.parts, component? part = some component := by
  have hlead : p.lead.length ≤ 1 := by
    unfold lead
    split
    · exact Nat.le_refl 1
    · split <;> simp
  have htail : component ∈ p.components.tail := by
    obtain ⟨front, hfront⟩ := h
    rw [← hfront]
    cases front with
    | nil => exact hmem
    | cons other front => exact List.mem_append_right _ (List.mem_cons_of_mem _ hmem)
  rw [components_eq] at htail
  rcases hnil : p.lead with _ | ⟨start, others⟩
  · rw [hnil] at htail
    exact List.mem_filterMap.mp (List.mem_of_mem_tail htail)
  · obtain rfl : others = [] := by simpa [hnil] using hlead
    rw [hnil] at htail
    exact List.mem_filterMap.mp htail

/-- The components of a path below another one come behind those of that one. -/
lemma components_join (base : Path) {p : Path} (h : p.lead = []) :
    (base.join p).components = base.components ++ p.components := by
  have hrelative := isAbsolute_of_lead h
  obtain ⟨habsolute, front, hjoin, hbase⟩ := base.exists_parts_join hrelative
  have hfirst : p.parts.head? ≠ some ['.'] := by
    intro hhead
    simp [lead, hrelative, hhead] at h
  -- the path starts where `base` does, also if that has no part of its own
  have hlead : (base.join p).lead = base.lead := by
    unfold lead
    rw [habsolute, hjoin]
    rcases hbase with hsame | hblank
    · rw [hsame, List.head?_append_of_ne_nil _ (hsame ▸ base.parts_ne_nil)]
    · rw [hblank]
      cases front with
      | nil => simp [hfirst]
      | cons first rest => rfl
  have hparts : base.parts.filterMap component? = front.filterMap component? := by
    rcases hbase with hsame | hblank
    · rw [hsame]
    · rw [hblank, List.filterMap_append]
      exact List.append_nil _
  rw [components_eq, components_eq base, components_eq p, h, hlead, hjoin, hparts,
    List.filterMap_append, List.nil_append, List.append_assoc]

/-- Below a base, a joined path has the components that were joined. -/
lemma below?_join (base : Path) {p : Path} (h : p.lead = []) :
    below? base (base.join p) = some p.components := by
  unfold below?
  rw [components_join base h, if_pos (List.isPrefixOf_iff_prefix.mpr (List.prefix_append _ _)),
    List.drop_left]

/-! ## Paths by their parts -/

/-- The text is a part of a path that means something wherever it stands: not empty, no `.`, and
without a separator. -/
def IsPart (text : String) : Prop :=
  text ≠ "" ∧ text ≠ "." ∧ '/' ∉ text.toList

instance (text : String) : Decidable (IsPart text) :=
  inferInstanceAs (Decidable (_ ∧ _ ∧ _))

section Parts

variable {p : Path} {parts : List String}

/-- A part names something. -/
lemma IsPart.toList_ne {text : String} (h : IsPart text) :
    text.toList ≠ [] ∧ text.toList ≠ ['.'] := by
  obtain ⟨hne, hdot, -⟩ := h
  exact ⟨fun hnil => hne (String.toList_inj.mp hnil), fun hhere => hdot (String.toList_inj.mp hhere)⟩

/-- A path that is put together of parts starts nowhere itself, and has these parts. -/
lemma parts_of_isPart (hp : p.text = "/".intercalate parts) (hne : parts ≠ [])
    (h : ∀ part ∈ parts, IsPart part) : p.lead = [] ∧ p.parts = parts.map String.toList := by
  obtain ⟨first, rest, rfl⟩ := List.exists_cons_of_ne_nil hne
  obtain ⟨hfirst, hdot⟩ := (h first List.mem_cons_self).toList_ne
  have htext : p.text.toList = ['/'].intercalate ((first :: rest).map String.toList) := by
    rw [hp, String.toList_intercalate, String.toList_ofList]
  have hhead : p.text.toList.head? = first.toList.head? := by
    rw [htext]
    cases rest with
    | nil => simp
    | cons next rest => simp [List.head?_append_of_ne_nil _ hfirst]
  have hrelative : p.isAbsolute = false :=
    isAbsolute_eq_false hfirst (h first List.mem_cons_self).2.2 hhead
  have hparts : p.parts = (first :: rest).map String.toList := by
    unfold Path.parts
    rw [hrelative, if_neg Bool.false_ne_true, htext]
    refine Text.fields_intercalate (by simp) ?_
    intro part hpart
    obtain ⟨text, hmem, rfl⟩ := List.mem_map.mp hpart
    exact (h text hmem).2.2
  refine ⟨?_, hparts⟩
  simp [lead, hrelative, hparts, hdot]

/-- Parts that name something are the texts of their components. -/
lemma text_filterMap_component? {parts : List (List Char)}
    (h : ∀ part ∈ parts, part ≠ [] ∧ part ≠ ['.']) :
    (parts.filterMap component?).map (fun component => component.text.toList) = parts := by
  induction parts with
  | nil => rfl
  | cons part parts ih =>
    obtain ⟨hne, hdot⟩ := h part List.mem_cons_self
    obtain ⟨component, hcomponent⟩ := exists_component? hne hdot
    rw [List.filterMap_cons_some hcomponent, List.map_cons, (text_of_component? hcomponent).1,
      ih fun other hother => h other (List.mem_cons_of_mem _ hother)]

/-- The components of a path that is put together of parts are these parts. -/
lemma text_components_of_isPart (hp : p.text = "/".intercalate parts)
    (h : ∀ part ∈ parts, IsPart part) :
    p.lead = [] ∧
      p.components.map (fun component => component.text.toList) = parts.map String.toList := by
  by_cases hne : parts = []
  · obtain rfl : p = ⟨""⟩ := by
      obtain ⟨text⟩ := p
      exact congrArg Path.mk (by simpa [hne] using hp)
    rw [hne]
    decide
  · obtain ⟨hlead, hparts⟩ := parts_of_isPart hp hne h
    refine ⟨hlead, ?_⟩
    rw [components_eq, hlead, hparts, List.nil_append, text_filterMap_component?]
    intro part hpart
    obtain ⟨text, hmem, rfl⟩ := List.mem_map.mp hpart
    exact (h text hmem).toList_ne

end Parts

end CachedRoutes.Path
