import CachedRoutes.Settings.Check
import CachedRoutes.Proofs.Code.Name

/-!
# What checked settings guarantee

Settings without a violation can be written into code: the caching function, the tag registry, the
clients and the needed symbols are all identifiers, so they are names of the scanner.
-/

namespace CachedRoutes.Settings

open Code (IsName)

/-- The wrapping section is in order exactly if its names are identifiers and there is a client. -/
lemma Wrapping.violation?_eq_none_iff {wrapping : Wrapping} :
    wrapping.violation? = none ↔
      isIdentifier wrapping.wrapper = true ∧ isIdentifier wrapping.registry = true ∧
        wrapping.clients ≠ [] ∧ ∀ client ∈ wrapping.clients, isIdentifier client = true := by
  unfold Wrapping.violation?
  constructor
  · intro h
    split at h
    · simp at h
    · rename_i hwrapper
      split at h
      · simp at h
      · rename_i hregistry
        split at h
        · simp at h
        · rename_i hclients
          refine ⟨by simpa using hwrapper, by simpa using hregistry, by simpa using hclients, ?_⟩
          simpa using h
  · rintro ⟨hwrapper, hregistry, hclients, hall⟩
    simpa [hwrapper, hregistry, hclients] using hall

/-- Settings without a violation have none in any section. -/
lemma violation?_eq_none {settings : Settings} (h : settings.violation? = none) :
    settings.wrap.violation? = none ∧
      ∀ required ∈ settings.imports.required, isBadImport required = false := by
  unfold violation? at h
  split at h
  · simp at h
  · split at h
    · simp at h
    · split at h
      · simp at h
      · rename_i hwrap
        exact ⟨hwrap, by simpa using h⟩

/-- Sections are checked on their own: one wrapping section in order may take another's place. -/
lemma violation?_wrap {settings : Settings} (h : settings.violation? = none) {wrap : Wrapping}
    (hwrap : wrap.violation? = none) : { settings with wrap := wrap }.violation? = none := by
  have hold := (violation?_eq_none h).1
  unfold violation? at h ⊢
  rw [hold] at h
  rw [hwrap]
  exact h

/-- Any identifiers can be listed as clients. -/
lemma violation?_clients {clients : List String} (hne : clients ≠ [])
    (hall : ∀ client ∈ clients, isIdentifier client = true) :
    ({ wrap := { clients := clients } } : Settings).violation? = none := by
  have hnames : isIdentifier ({} : Wrapping).wrapper = true ∧
      isIdentifier ({} : Wrapping).registry = true := by decide
  have hwrap : ({ clients := clients } : Wrapping).violation? = none :=
    Wrapping.violation?_eq_none_iff.mpr ⟨hnames.1, hnames.2, hne, hall⟩
  have hdefault : ({} : Settings).violation? = none := by decide +kernel
  exact violation?_wrap hdefault hwrap

/-- The symbols of needed imports are names. -/
lemma isName_symbol {settings : Settings} (h : settings.violation? = none)
    {required : RequiredImport} (hmem : required ∈ settings.imports.required) :
    IsName required.symbol.toList := by
  have hgood := (violation?_eq_none h).2 required hmem
  simp only [isBadImport, Bool.or_eq_false_iff, Bool.not_eq_false'] at hgood
  exact Code.isName_of_isIdentifier hgood.1

end CachedRoutes.Settings
