import CachedRoutes.Toml.Overlay
import CachedRoutes.Toml.Printer
import CachedRoutes.Proofs.Toml.Table

/-!
# What an overlay says at every path

A document is seen through `Value.get?`, by paths of keys. `IsOverlay` says for every path what
stands there when one document is laid over another.

* **One level** (`lookup_overlayEntries`): a key of both documents is merged, a key of one of them
  keeps its value.
* **One step down** (`get?_overlay_cons`): below a key of both, the overlay of the two values is
  seen; below any other key, the document that has it.
* **All levels** (`overlay_exact`): the overlay of two tables is one in the sense of `IsOverlay`,
  laying the same table over it again changes nothing, and neither does an empty one.

That keys of the upper document stand in their table once is needed for all of it: of two entries
with one key, the second would be laid over the first.
-/

namespace CachedRoutes.Toml

mutual

/-- Does every table that a path of keys leads to have each of its keys once? -/
def Value.keysOnce : Value → Bool
  | .table entries => entriesOnce entries
  | _ => true

/-- Has each of the entries its own key, and its value as well? -/
def entriesOnce : List (String × Value) → Bool
  | [] => true
  | (key, value) :: rest => (lookup key rest).isNone && value.keysOnce && entriesOnce rest

end

/-- Is there a table at the path? -/
def Value.tableAt (value : Value) (path : List String) : Bool :=
  (value.get? path).any Value.isTable

/-- Is there something else than a table at the path? -/
def Value.leafAt (value : Value) (path : List String) : Bool :=
  (value.get? path).any fun found => !found.isTable

/-- What stands at the paths of `upper` laid over `lower`. -/
structure IsOverlay (lower upper merged : Value) : Prop where
  /-- What the upper document says counts, except where two tables meet. -/
  replaced : ∀ path value, upper.get? path = some value →
    (value.isTable = true → lower.tableAt path = false) → merged.get? path = some value
  /-- Where two tables meet, there is one with the keys of both. -/
  united : ∀ path below above, lower.get? path = some (.table below) →
    upper.get? path = some (.table above) → ∃ entries, merged.get? path = some (.table entries) ∧
      ∀ key, (lookup key entries).isSome ↔ (lookup key below).isSome ∨ (lookup key above).isSome
  /-- What only the lower document speaks of is kept, unless the upper one has taken the place of
  something on the way to it. -/
  kept : ∀ path, upper.get? path = none →
    (∀ front rest, path = front ++ rest → rest ≠ [] → upper.leafAt front = false ∧
      ¬(upper.tableAt front = true ∧ lower.leafAt front = true)) →
    merged.get? path = lower.get? path
  /-- Nothing stands below what is no table in the upper document. -/
  hidden : ∀ front rest, upper.leafAt front = true → rest ≠ [] → merged.get? (front ++ rest) = none

/-! ## One level -/

section Entries

variable {lower upper : List (String × Value)}

/-- Tables are laid over each other entry by entry. -/
@[simp] lemma overlay_table (lower upper : List (String × Value)) :
    overlay (.table lower) (.table upper) = .table (overlayEntries lower upper) := by
  rw [overlay]

/-- A value that is no table replaces what is below it. -/
lemma overlay_of_not_isTable {lower upper : Value} (h : upper.isTable = false) :
    overlay lower upper = upper := by
  cases upper with
  | table entries => simp [Value.isTable] at h
  | _ => rw [overlay]; simp

/-- A table replaces a value that is no table. -/
lemma overlay_of_lower_not_isTable {lower : Value} (h : lower.isTable = false)
    (upper : List (String × Value)) : overlay lower (.table upper) = .table upper := by
  cases lower with
  | table entries => simp [Value.isTable] at h
  | _ => rw [overlay]; simp

/-- What an upper value makes of what stands below it, if anything does. -/
def overlayOn (below? : Option Value) (above : Value) : Value :=
  match below? with
  | some below => overlay below above
  | none => above

/-- Entries are laid over one after the other, from the first one on. -/
lemma overlayEntries_cons (key : String) (value : Value) :
    overlayEntries lower ((key, value) :: upper)
      = overlayEntries (put key (overlayOn (lookup key lower) value) lower) upper := by
  rw [overlayEntries]
  split <;> simp_all [overlayOn]

/-- A key that the upper entries do not have keeps its value. -/
lemma lookup_overlayEntries_of_none {key : String} (h : lookup key upper = none) :
    lookup key (overlayEntries lower upper) = lookup key lower := by
  induction upper generalizing lower with
  | nil => rw [overlayEntries]
  | cons entry upper ih =>
    obtain ⟨k, value⟩ := entry
    by_cases hk : k = key
    · simp [hk] at h
    · rw [lookup_cons_of_ne hk] at h
      rw [overlayEntries_cons, ih h, lookup_put_of_ne hk]

/-- A key of the upper entries has their value, laid over what was there. -/
lemma lookup_overlayEntries_of_some {key : String} {value : Value}
    (honce : entriesOnce upper = true) (h : lookup key upper = some value) :
    lookup key (overlayEntries lower upper) = some (overlayOn (lookup key lower) value) := by
  induction upper generalizing lower with
  | nil => simp at h
  | cons entry upper ih =>
    obtain ⟨k, v⟩ := entry
    simp only [entriesOnce, Bool.and_eq_true, Option.isNone_iff_eq_none] at honce
    obtain ⟨⟨hnew, -⟩, honce⟩ := honce
    rw [overlayEntries_cons]
    by_cases hk : k = key
    · subst hk
      obtain rfl : v = value := by simpa using h
      rw [lookup_overlayEntries_of_none hnew, lookup_put_self]
    · rw [lookup_cons_of_ne hk] at h
      rw [ih honce h, lookup_put_of_ne hk]

/-- The value of a key inherits that keys stand once. -/
lemma keysOnce_of_lookup {key : String} {value : Value} (honce : entriesOnce upper = true)
    (h : lookup key upper = some value) : value.keysOnce = true := by
  induction upper with
  | nil => simp at h
  | cons entry upper ih =>
    obtain ⟨k, v⟩ := entry
    simp only [entriesOnce, Bool.and_eq_true] at honce
    by_cases hk : k = key
    · subst hk
      obtain rfl : v = value := by simpa using h
      exact honce.1.2
    · rw [lookup_cons_of_ne hk] at h
      exact ih honce.2 h

end Entries

/-! ## Paths -/

section Paths

variable {lower upper : Value} {path : List String}

/-- A table is a table. -/
@[simp] lemma isTable_table (entries : List (String × Value)) :
    (Value.table entries).isTable = true := rfl

/-- What is a table has entries. -/
lemma exists_table {value : Value} (h : value.isTable = true) :
    ∃ entries, value = .table entries := by
  cases value with
  | table entries => exact ⟨entries, rfl⟩
  | _ => simp [Value.isTable] at h

/-- The empty path leads to the value itself. -/
@[simp] lemma get?_nil (value : Value) : value.get? [] = some value := by
  rw [Value.get?]

/-- A path leads through a table by its first key. -/
@[simp] lemma get?_table_cons (entries : List (String × Value)) (key : String) :
    (Value.table entries).get? (key :: path) = (lookup key entries).bind (Value.get? path) := by
  rw [Value.get?]
  cases lookup key entries <;> rfl

/-- No path leads through a value that is no table. -/
lemma get?_cons_of_not_isTable {value : Value} (h : value.isTable = false) (key : String) :
    value.get? (key :: path) = none := by
  cases value with
  | table entries => simp [Value.isTable] at h
  | _ => rw [Value.get?]; simp

/-- A path leads on from tables only. -/
lemma get?_cons_eq_some {value found : Value} {key : String}
    (h : value.get? (key :: path) = some found) :
    ∃ entries, value = .table entries ∧ ∃ next, lookup key entries = some next ∧
      next.get? path = some found := by
  by_cases htable : value.isTable = true
  · obtain ⟨entries, rfl⟩ := exists_table htable
    rw [get?_table_cons] at h
    exact ⟨entries, rfl, Option.bind_eq_some_iff.mp h⟩
  · rw [get?_cons_of_not_isTable (by simpa using htable)] at h
    cases h

/-- At a leaf there is a value that is no table. -/
lemma leafAt_eq_true {value : Value} (h : value.leafAt path = true) :
    ∃ found, value.get? path = some found ∧ found.isTable = false := by
  unfold Value.leafAt at h
  cases hget : value.get? path with
  | none => simp [hget] at h
  | some found => exact ⟨found, rfl, by simpa [hget] using h⟩

/-- A path is followed part by part. -/
lemma get?_append (value : Value) (front rest : List String) :
    value.get? (front ++ rest) = (value.get? front).bind (Value.get? rest) := by
  induction front generalizing value with
  | nil => simp
  | cons key front ih =>
    rw [List.cons_append]
    by_cases htable : value.isTable = true
    · obtain ⟨entries, rfl⟩ := exists_table htable
      rw [get?_table_cons, get?_table_cons, Option.bind_assoc]
      congr 1
      funext inner
      exact ih inner
    · have hleaf : value.isTable = false := by simpa using htable
      rw [get?_cons_of_not_isTable hleaf, get?_cons_of_not_isTable hleaf, Option.bind_none]

/-- A step down into an overlay of tables, by what the key has in both of them. -/
lemma get?_overlay_cons {lower upper : List (String × Value)} (honce : entriesOnce upper = true)
    (key : String) :
    (overlay (.table lower) (.table upper)).get? (key :: path)
      = match lookup key upper with
        | some above => (overlayOn (lookup key lower) above).get? path
        | none => (Value.table lower).get? (key :: path) := by
  rw [overlay_table, get?_table_cons]
  cases habove : lookup key upper with
  | some above => rw [lookup_overlayEntries_of_some honce habove, Option.bind_some]
  | none => rw [lookup_overlayEntries_of_none habove, get?_table_cons]

/-- What the upper document says counts, except where two tables meet. -/
lemma get?_overlay_of_replaced (honce : upper.keysOnce = true) {value : Value}
    (h : upper.get? path = some value)
    (hmeet : value.isTable = true → lower.tableAt path = false) :
    (overlay lower upper).get? path = some value := by
  induction path generalizing lower upper with
  | nil =>
    obtain rfl : upper = value := by simpa using h
    rw [get?_nil]
    by_cases htable : upper.isTable = true
    · obtain ⟨entries, rfl⟩ := exists_table htable
      have hlower : lower.isTable = false := by simpa [Value.tableAt] using hmeet htable
      rw [overlay_of_lower_not_isTable hlower]
    · rw [overlay_of_not_isTable (by simpa using htable)]
  | cons key path ih =>
    obtain ⟨above, rfl, next, hnext, hget⟩ := get?_cons_eq_some h
    by_cases hlower : lower.isTable = true
    · obtain ⟨below, rfl⟩ := exists_table hlower
      rw [get?_overlay_cons honce, hnext]
      cases hbelow : lookup key below with
      | none => exact hget
      | some inner =>
        refine ih (keysOnce_of_lookup honce hnext) hget ?_
        simpa [Value.tableAt, hbelow] using hmeet
    · rw [overlay_of_lower_not_isTable (by simpa using hlower), h]

/-- Where two tables meet, they are laid over each other. -/
lemma get?_overlay_of_tables (honce : upper.keysOnce = true) {below above : List (String × Value)}
    (hlower : lower.get? path = some (.table below))
    (hupper : upper.get? path = some (.table above)) :
    entriesOnce above = true ∧
      (overlay lower upper).get? path = some (.table (overlayEntries below above)) := by
  induction path generalizing lower upper with
  | nil =>
    obtain rfl : lower = .table below := by simpa using hlower
    obtain rfl : upper = .table above := by simpa using hupper
    exact ⟨honce, by rw [get?_nil, overlay_table]⟩
  | cons key path ih =>
    obtain ⟨outer, rfl, inner, hinner, hlower⟩ := get?_cons_eq_some hlower
    obtain ⟨cover, rfl, next, hnext, hupper⟩ := get?_cons_eq_some hupper
    rw [get?_overlay_cons honce, hnext, hinner]
    exact ih (keysOnce_of_lookup honce hnext) hlower hupper

/-- What only the lower document speaks of is kept, unless the upper one has taken the place of
something on the way to it. -/
lemma get?_overlay_of_kept (honce : upper.keysOnce = true) (h : upper.get? path = none)
    (hclear : ∀ front rest, path = front ++ rest → rest ≠ [] → upper.leafAt front = false ∧
      ¬(upper.tableAt front = true ∧ lower.leafAt front = true)) :
    (overlay lower upper).get? path = lower.get? path := by
  induction path generalizing lower upper with
  | nil => simp at h
  | cons key path ih =>
    obtain ⟨hleaf, hreplaced⟩ := hclear [] (key :: path) rfl (by simp)
    have hupper : upper.isTable = true := by simpa [Value.leafAt] using hleaf
    have hlower : lower.isTable = true := by
      simpa [Value.leafAt, Value.tableAt, hupper] using hreplaced
    obtain ⟨above, rfl⟩ := exists_table hupper
    obtain ⟨below, rfl⟩ := exists_table hlower
    rw [get?_overlay_cons honce]
    cases hnext : lookup key above with
    | none => rfl
    | some next =>
      have hmissing : next.get? path = none := by simpa [hnext] using h
      cases hinner : lookup key below with
      | none => simp [overlayOn, hmissing, hinner]
      | some inner =>
        have hbelow : (overlay inner next).get? path = inner.get? path := by
          refine ih (keysOnce_of_lookup honce hnext) hmissing ?_
          intro front rest hpath hrest
          have hstep := hclear (key :: front) rest (by simp [hpath]) hrest
          simpa [Value.leafAt, Value.tableAt, hnext, hinner] using hstep
        simp [overlayOn, hbelow, hinner]

/-- Nothing stands below what is no table in the upper document. -/
lemma get?_overlay_of_hidden (honce : upper.keysOnce = true) (h : upper.leafAt path = true)
    {rest : List String} (hrest : rest ≠ []) :
    (overlay lower upper).get? (path ++ rest) = none := by
  obtain ⟨value, hget, hvalue⟩ := leafAt_eq_true h
  have hmerged : (overlay lower upper).get? path = some value :=
    get?_overlay_of_replaced honce hget (by simp [hvalue])
  rw [get?_append, hmerged]
  obtain ⟨key, keys, rfl⟩ := List.exists_cons_of_ne_nil hrest
  exact get?_cons_of_not_isTable hvalue key

end Paths

/-! ## The same overlay twice -/

/-- Entries that are in place already change nothing. -/
lemma overlayEntries_of_settled {lower upper : List (String × Value)}
    (honce : entriesOnce upper = true)
    (h : ∀ key above, lookup key upper = some above →
      ∃ below, lookup key lower = some below ∧ overlay below above = below) :
    overlayEntries lower upper = lower := by
  induction upper with
  | nil => rw [overlayEntries]
  | cons entry upper ih =>
    obtain ⟨key, value⟩ := entry
    simp only [entriesOnce, Bool.and_eq_true, Option.isNone_iff_eq_none] at honce
    obtain ⟨below, hbelow, hsettled⟩ := h key value lookup_cons_self
    have hput : put key (overlayOn (lookup key lower) value) lower = lower := by
      rw [hbelow]
      exact put_of_lookup (by rw [hbelow, overlayOn, hsettled])
    rw [overlayEntries_cons, hput]
    refine ih honce.2 ?_
    intro other above habove
    refine h other above ?_
    rw [lookup_cons_of_ne, habove]
    -- the key of the first entry is not among the others
    rintro rfl
    rw [honce.1.1] at habove
    cases habove

/-- What has no counterpart below is as if laid over something that is no table. -/
lemma overlay_boolean (value : Value) : overlay (.boolean false) value = value := by
  cases value with
  | table entries => exact overlay_of_lower_not_isTable rfl entries
  | _ => exact overlay_of_not_isTable rfl

mutual

/-- Laying the same document over a second time changes nothing. -/
theorem overlay_overlay (upper : Value) (honce : upper.keysOnce = true) (lower : Value) :
    overlay (overlay lower upper) upper = overlay lower upper := by
  cases upper with
  | table above =>
    have hsettled : ∀ below : List (String × Value),
        (∀ key value, lookup key above = some value →
          ∃ old, lookup key below = some (overlay old value)) →
        overlay (.table below) (.table above) = .table below := by
      intro below h
      rw [overlay_table, overlayEntries_of_settled honce]
      intro key value hvalue
      obtain ⟨old, hold⟩ := h key value hvalue
      exact ⟨_, hold, overlay_overlay_of_lookup above honce key value hvalue old⟩
    by_cases hlower : lower.isTable = true
    · obtain ⟨below, rfl⟩ := exists_table hlower
      rw [overlay_table]
      refine hsettled _ ?_
      intro key value hvalue
      rw [lookup_overlayEntries_of_some honce hvalue]
      cases lookup key below with
      | none => exact ⟨.boolean false, by rw [overlayOn, overlay_boolean]⟩
      | some old => exact ⟨old, rfl⟩
    · have hleaf : lower.isTable = false := by simpa using hlower
      rw [overlay_of_lower_not_isTable hleaf]
      refine hsettled _ ?_
      intro key value hvalue
      exact ⟨.boolean false, by rw [hvalue, overlay_boolean]⟩
  | _ => rw [overlay_of_not_isTable rfl, overlay_of_not_isTable rfl]

/-- A value of a table without repeated keys that is laid over another a second time changes
nothing. -/
theorem overlay_overlay_of_lookup (upper : List (String × Value))
    (honce : entriesOnce upper = true) (key : String) (value : Value)
    (hvalue : lookup key upper = some value) (lower : Value) :
    overlay (overlay lower value) value = overlay lower value := by
  cases upper with
  | nil => simp at hvalue
  | cons entry rest =>
    obtain ⟨first, inner⟩ := entry
    simp only [entriesOnce, Bool.and_eq_true] at honce
    by_cases hkey : first = key
    · subst hkey
      obtain rfl : inner = value := by simpa using hvalue
      exact overlay_overlay inner honce.1.2 lower
    · rw [lookup_cons_of_ne hkey] at hvalue
      exact overlay_overlay_of_lookup rest honce.2 key value hvalue lower

end

/-! ## All levels -/

/-- **An overlay is exact at every depth.** For all documents of which the upper one has the keys of
each of its tables once: at every path the overlay has what `IsOverlay` says. Laying the same
document over it again changes nothing, and an empty table laid over a table changes nothing. -/
theorem overlay_exact (lower upper : Value) (honce : upper.keysOnce = true) :
    IsOverlay lower upper (overlay lower upper) ∧
      overlay (overlay lower upper) upper = overlay lower upper ∧
      ∀ entries, overlay (.table entries) (.table []) = .table entries := by
  refine ⟨⟨?replaced, ?united, ?kept, ?hidden⟩, overlay_overlay upper honce lower, ?empty⟩
  case replaced =>
    intro path value hget hmeet
    exact get?_overlay_of_replaced honce hget hmeet
  case united =>
    intro path below above hbelow habove
    obtain ⟨honce', hmerged⟩ := get?_overlay_of_tables honce hbelow habove
    refine ⟨_, hmerged, ?_⟩
    intro key
    cases hkey : lookup key above with
    | none => simp [lookup_overlayEntries_of_none hkey]
    | some value => simp [lookup_overlayEntries_of_some honce' hkey]
  case kept =>
    intro path hmissing hclear
    exact get?_overlay_of_kept honce hmissing hclear
  case hidden =>
    intro front rest hleaf hrest
    exact get?_overlay_of_hidden honce hleaf hrest
  case empty =>
    intro entries
    rw [overlay_table, overlayEntries]

/-- A list is replaced as a whole, a setting that only the lower document has is kept, and a table
takes the place of a truth value. -/
theorem overlay_exact_policy :
    let lower : Value := .table
      [ ("policy", .table [("strategy", .string "table"), ("tags", .array [.string "user"])]),
        ("wrap", .boolean true) ]
    let upper : Value := .table
      [ ("policy", .table [("tags", .array []), ("routes", .table [])]),
        ("wrap", .table [("enabled", .boolean false)]) ]
    let merged := overlay lower upper
    upper.keysOnce = true ∧ merged.get? ["policy", "tags"] = some (.array []) ∧
      merged.get? ["policy", "strategy"] = some (.string "table") ∧
      merged.get? ["wrap"] = some (.table [("enabled", .boolean false)]) ∧
      merged.get? ["policy", "tags", "user"] = none ∧ overlay merged upper = merged := by
  intro lower upper merged
  have honce : upper.keysOnce = true := by decide
  obtain ⟨hoverlay, htwice, -⟩ := overlay_exact lower upper honce
  refine ⟨honce, ?_, ?_, ?_, ?_, htwice⟩
  · exact hoverlay.replaced ["policy", "tags"] _ rfl (by decide)
  · refine hoverlay.kept ["policy", "strategy"] rfl ?_
    intro front rest hpath hrest
    rcases front with _ | ⟨first, _ | ⟨second, front⟩⟩
    · exact ⟨rfl, by decide⟩
    · obtain rfl : first = "policy" := (List.cons.inj hpath).1.symm
      exact ⟨rfl, by decide⟩
    · have hlength := congrArg List.length hpath
      have hpos := List.length_pos_of_ne_nil hrest
      simp only [List.length_append, List.length_cons, List.length_nil] at hlength
      omega
  · exact hoverlay.replaced ["wrap"] _ rfl (by decide)
  · exact hoverlay.hidden ["policy", "tags"] ["user"] rfl (by simp)

end CachedRoutes.Toml
