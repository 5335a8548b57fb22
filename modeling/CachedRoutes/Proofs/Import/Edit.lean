import CachedRoutes.Proofs.Code.Inside
import CachedRoutes.Proofs.Import.Ensure

/-!
# Where imports are written

The import stage replaces brace lists and inserts lines, each time in the text that the edit before it
has left. Statements are found by their words alone, so that one in a comment or in quoted text counts
as well. Here each edit is compared with the spans of the text it is made in.

* **Edits.** `edits`: what the stage does to a text, piece by piece, and `leads_ensure`: this leads to the
  text of the stage.
* **Statements.** `Edit.On`: each edit belongs to a line that starts with `import`.
* **Dead text** (`edits_dead_iff`): an edit is made in a comment or in quoted text exactly if the line of
  its statement starts there, or if the statement opens something and does not close it.
  `edits_in_dead_text` has edits of all these kinds.
-/

namespace CachedRoutes.Import

/-! ## Edits -/

/-- A piece of a text is replaced by another one. -/
structure Edit where
  before : List Char
  /-- The brace list of a named import. For lines that are inserted there is nothing here. -/
  old : List Char
  new : List Char
  after : List Char
  deriving DecidableEq, Repr

namespace Edit

/-- The text that the edit is made in. -/
def text (edit : Edit) : List Char :=
  edit.before ++ edit.old ++ edit.after

def result (edit : Edit) : List Char :=
  edit.before ++ edit.new ++ edit.after

/-- The place behind the old piece, where what is new is added. -/
def place (edit : Edit) : Nat :=
  (edit.before ++ edit.old).length

/-- What is new is added to a comment or to quoted text. -/
def IsDead (edit : Edit) : Prop :=
  Code.InsideAt edit.text edit.place

instance (edit : Edit) : Decidable edit.IsDead :=
  inferInstanceAs (Decidable (Code.InsideAt _ _))

end Edit

/-- Each edit is made in the text that the one before it leaves, and the last leaves the final text. -/
def Leads (text : List Char) : List Edit → List Char → Prop
  | [], final => text = final
  | edit :: rest, final => edit.text = text ∧ Leads edit.result rest final

/-- The edit that makes an addition to a named import. -/
def Addition.edit? (addition : Addition) (text : List Char) : Option Edit :=
  match named? addition.specifier.toList text with
  | none => none
  | some named =>
    if (nameList named.names).isEmpty then none
    else some {
      before := Text.upTo text (named.names ++ named.after)
      old := named.names
      new := extendedList named.names (addition.symbols.map String.toList)
      after := named.after }

/-- The edits of named imports, one addition after the other. -/
def listEdits : List Addition → List Char → List Edit
  | [], _ => []
  | addition :: rest, text =>
    match addition.edit? text with
    | some edit => edit :: listEdits rest edit.result
    | none => listEdits rest text

/-- The edit that inserts lines behind the anchor. -/
def anchorEdit (anchor : Anchor) (additions : List Addition) (text : List Char) : Edit where
  before := Text.upTo text anchor.after
  old := []
  new := additions.flatMap fun addition =>
    lineEnd text ++ importLine anchor.quote anchor.terminated addition
  after := anchor.after

/-- All that is done to a text to declare the needed imports. -/
def edits (imports : Settings.Imports) (text : List Char) : List Edit :=
  let extended := extendAll (additions imports text) text
  let anchor? := anchor? imports.anchor.toList extended.1.text
  listEdits (additions imports text) text ++
    if extended.2.isEmpty then []
    else (anchor?.map fun anchor => anchorEdit anchor extended.2 extended.1.text).toList

/-! ## The edits lead to the text of the stage -/

/-- Edits that lead from one text to another, and from there on to a third. -/
lemma Leads.append {text middle final : List Char} {front rest : List Edit}
    (hfront : Leads text front middle) (hrest : Leads middle rest final) :
    Leads text (front ++ rest) final := by
  induction front generalizing text with
  | nil =>
    obtain rfl : text = middle := hfront
    exact hrest
  | cons edit front ih => exact ⟨hfront.1, ih hfront.2⟩

/-- The edit of an addition does what the stage does. -/
lemma Addition.map_result_edit? (addition : Addition) (text : List Char) :
    (addition.edit? text).map Edit.result = addition.extend? text := by
  unfold Addition.edit? Addition.extend? Import.extend?
  cases named? addition.specifier.toList text with
  | none => rfl
  | some named =>
    dsimp only
    split
    · rfl
    · simp [Edit.result, extendedList]

/-- What the edit of an addition is made of. -/
lemma Addition.edit?_eq_some {addition : Addition} {text : List Char} {edit : Edit}
    (h : addition.edit? text = some edit) :
    ∃ start opening closed,
      ListAt addition.specifier.toList text start opening edit.old closed ∧
        edit.before = start ++ opening ∧ edit.after = '\x7d' :: closed := by
  unfold Addition.edit? at h
  split at h
  · simp at h
  · rename_i named hnamed
    split at h
    · simp at h
    · obtain rfl := Option.some.inj h
      obtain ⟨start, opening, closed, hlist, hafter⟩ := listAt_of_named? hnamed
      refine ⟨start, opening, closed, hlist, ?_, hafter⟩
      dsimp only
      rw [hafter, hlist.text_eq, upTo_append]

/-- An edit is made to the text that it was found in. -/
lemma Addition.text_edit? {addition : Addition} {text : List Char} {edit : Edit}
    (h : addition.edit? text = some edit) : edit.text = text := by
  obtain ⟨start, opening, closed, hlist, hbefore, hafter⟩ := Addition.edit?_eq_some h
  rw [Edit.text, hbefore, hafter, hlist.text_eq, List.append_assoc]

/-- The edits of the lists lead to the text in which they are extended. -/
lemma leads_listEdits (list : List Addition) (text : List Char) :
    Leads text (listEdits list text) (extendAll list text).1.text := by
  induction list generalizing text with
  | nil => rfl
  | cons addition rest ih =>
    have hextend := addition.map_result_edit? text
    rw [listEdits, extendAll]
    cases hedit : addition.edit? text with
    | some edit =>
      rw [hedit] at hextend
      have hsome : Import.extend? addition.specifier.toList (addition.symbols.map String.toList) text
          = some edit.result := hextend.symm
      rw [hsome]
      exact ⟨Addition.text_edit? hedit, ih edit.result⟩
    | none =>
      rw [hedit] at hextend
      have hnone : Import.extend? addition.specifier.toList (addition.symbols.map String.toList) text
          = none := hextend.symm
      rw [hnone]
      exact ih text

/-- The edit at an anchor is made to the text that it was found in. -/
lemma text_anchorEdit {specifier text : List Char} {anchor : Anchor}
    (h : anchor? specifier text = some anchor) (list : List Addition) :
    (anchorEdit anchor list text).text = text := by
  obtain ⟨a, quote, rest, htext, -, -⟩ := anchor?_ends h
  have hcut : text = (a ++ quote :: rest) ++ anchor.after := by simp [htext]
  rw [Edit.text, anchorEdit, List.append_nil, hcut, upTo_append]

/-- The edits behind those of named imports, with what they lead to. -/
lemma edits_cases (imports : Settings.Imports) (text : List Char) :
    let extended := extendAll (additions imports text) text
    (edits imports text = listEdits (additions imports text) text ∧
      (ensure imports text).text = extended.1.text) ∨
    ∃ anchor, anchor? imports.anchor.toList extended.1.text = some anchor ∧
      edits imports text = listEdits (additions imports text) text
        ++ [anchorEdit anchor extended.2 extended.1.text] ∧
      (ensure imports text).text = (anchorEdit anchor extended.2 extended.1.text).result := by
  intro extended
  have hedits : edits imports text = listEdits (additions imports text) text ++
      if extended.2.isEmpty then []
      else ((anchor? imports.anchor.toList extended.1.text).map fun anchor =>
        anchorEdit anchor extended.2 extended.1.text).toList := rfl
  rw [hedits]
  rcases ensure_cases imports text with ⟨hleft, heq⟩ | ⟨anchor, hanchor, heq⟩ | ⟨hanchor, heq⟩
  · left
    rw [if_pos (List.isEmpty_iff.mpr hleft), List.append_nil]
    exact ⟨rfl, heq⟩
  · by_cases hleft : extended.2 = []
    · -- no lines are inserted, so the text stays
      left
      rw [if_pos (List.isEmpty_iff.mpr hleft), List.append_nil]
      refine ⟨rfl, ?_⟩
      have htext := text_anchorEdit hanchor []
      rw [heq, hleft]
      exact htext
    · right
      refine ⟨anchor, hanchor, ?_, heq⟩
      rw [if_neg (by simpa using hleft), hanchor]
      rfl
  · left
    rw [hanchor, Option.map_none, Option.toList_none, ite_self, List.append_nil]
    exact ⟨rfl, heq⟩

/-- **The edits lead to the text of the stage.** -/
lemma leads_ensure (imports : Settings.Imports) (text : List Char) :
    Leads text (edits imports text) (ensure imports text).text := by
  have hlists := leads_listEdits (additions imports text) text
  rcases edits_cases imports text with ⟨hedits, hensure⟩ | ⟨anchor, hanchor, hedits, hensure⟩
  · rw [hedits, hensure]
    exact hlists
  · rw [hedits, hensure]
    exact hlists.append ⟨text_anchorEdit hanchor _, rfl⟩

/-! ## Statements -/

/-- The edit is made at an import statement: `start` is the text in front of its line, and `statement`
reaches from there to the place of the edit. -/
structure Edit.On (edit : Edit) (start statement : List Char) : Prop where
  cut : edit.before ++ edit.old = start ++ statement
  line_start : start = [] ∨ ∃ before, start = before ++ ['\n']
  imports : ∃ indent more, statement = indent ++ "import".toList ++ more ∧
    ∀ c ∈ indent, Text.isIndent c = true
  /-- The edit replaces all that is between the braces, or nothing. -/
  braces : (∃ opening, statement = opening ++ '\x7b' :: edit.old ∧ edit.after.head? = some '\x7d') ∨
    edit.old = []

/-- The edit of an addition is made to a statement. -/
lemma Addition.edit?_on {addition : Addition} {text : List Char} {edit : Edit}
    (h : addition.edit? text = some edit) : ∃ start statement, edit.On start statement := by
  obtain ⟨start, opening, closed, hlist, hbefore, hafter⟩ := Addition.edit?_eq_some h
  obtain ⟨indent, gap, rfl, hindent, -⟩ := hlist.opening_eq
  refine ⟨start, indent ++ "import".toList ++ gap ++ ['\x7b'] ++ edit.old, ?_, hlist.line_start, ?_, ?_⟩
  · rw [hbefore, List.append_assoc]
  · exact ⟨indent, gap ++ ['\x7b'] ++ edit.old, by simp, hindent⟩
  · exact .inl ⟨indent ++ "import".toList ++ gap, by simp, by rw [hafter]; rfl⟩

/-- The edit at an anchor is made to a statement. -/
lemma anchorEdit_on {specifier text : List Char} {anchor : Anchor}
    (h : anchor? specifier text = some anchor) (list : List Addition) :
    ∃ start statement, (anchorEdit anchor list text).On start statement := by
  obtain ⟨line, hline, hanchor⟩ := List.exists_of_findSome?_eq_some h
  obtain ⟨start, rfl, hstart⟩ := Text.exists_front_of_mem_lineStarts hline
  obtain ⟨indent, body, opening, quote, tail, rfl, hindent, -, -, -⟩ := anchorAt?_eq_some hanchor
  refine ⟨start, indent ++ "import".toList ++ (body ++ opening :: specifier ++ quote :: tail), ?_,
    hstart, ⟨indent, _, rfl, hindent⟩, .inr rfl⟩
  have hcut : start ++ (indent ++ "import".toList ++ (body ++ opening :: specifier)
        ++ (quote :: tail ++ anchor.after))
      = start ++ (indent ++ "import".toList ++ (body ++ opening :: specifier ++ quote :: tail))
        ++ anchor.after := by simp
  rw [hcut]
  show Text.upTo _ anchor.after ++ [] = _
  rw [upTo_append, List.append_nil]

/-- Each edit of the lists is that of some addition, in the text at hand. -/
lemma mem_listEdits {list : List Addition} {text : List Char} {edit : Edit}
    (h : edit ∈ listEdits list text) : ∃ addition here, Addition.edit? addition here = some edit := by
  induction list generalizing text with
  | nil => simp [listEdits] at h
  | cons addition rest ih =>
    rw [listEdits] at h
    split at h
    · rename_i first hfirst
      rcases List.mem_cons.mp h with rfl | h
      · exact ⟨addition, text, hfirst⟩
      · exact ih h
    · exact ih h

/-- **Every edit is made at an import statement.** -/
lemma exists_on {imports : Settings.Imports} {text : List Char} {edit : Edit}
    (h : edit ∈ edits imports text) : ∃ start statement, edit.On start statement := by
  have hlists : edit ∈ listEdits (additions imports text) text →
      ∃ start statement, edit.On start statement := by
    intro hmem
    obtain ⟨addition, here, hedit⟩ := mem_listEdits hmem
    exact Addition.edit?_on hedit
  rcases edits_cases imports text with ⟨hedits, -⟩ | ⟨anchor, hanchor, hedits, -⟩
  · rw [hedits] at h
    exact hlists h
  · rw [hedits, List.mem_append, List.mem_singleton] at h
    rcases h with h | rfl
    · exact hlists h
    · exact anchorEdit_on hanchor _

/-! ## Dead text -/

namespace Edit.On

variable {edit : Edit} {start statement : List Char}

/-- The text is what stands in front of the statement, the statement, and what follows the edit. -/
lemma text_eq (h : edit.On start statement) : edit.text = start ++ (statement ++ edit.after) := by
  rw [Edit.text, h.cut, List.append_assoc]

/-- The edit is made at the end of the statement. -/
lemma place_eq (h : edit.On start statement) : edit.place = start.length + statement.length := by
  rw [Edit.place, h.cut, List.length_append]

/-- From the line of the statement on, it is decided whether the edit is made in dead text. -/
lemma isDead_iff (h : edit.On start statement) :
    edit.IsDead ↔ edit.place < Code.resume edit.text start.length ∨
      Code.resume edit.text start.length ≤ edit.place ∧
        Code.InsideAt (edit.text.drop (Code.resume edit.text start.length))
          (edit.place - Code.resume edit.text start.length) := by
  apply Code.insideAt_iff
  · rw [h.place_eq]
    exact Nat.le_add_right _ _
  · rw [h.text_eq, List.length_append]
    exact Nat.le_add_right _ _

/-- A plain statement in live text is edited in live text. -/
lemma not_isDead (h : edit.On start statement) (hstart : ¬ Code.InsideAt edit.text start.length)
    (hplain : Code.IsPlain statement) : ¬ edit.IsDead := by
  unfold Edit.IsDead
  rw [h.text_eq] at hstart
  rw [h.text_eq, h.place_eq, Code.insideAt_append hstart]
  exact Code.not_insideAt_of_isPlain hplain edit.after

end Edit.On

/-- **When imports are written into dead text.** The stage makes its edits one after the other, each of
them at an import statement. An edit is made in a comment or in quoted text exactly if the span that is
open where the line of the statement starts reaches over its place, or if code goes on in front of that
place and something opens behind that and is not closed. So if the line does not start inside of a span,
and the statement has no slashes and no quotes but those around one module, the edit is made in code. -/
theorem edits_dead_iff (imports : Settings.Imports) (text : List Char) :
    Leads text (edits imports text) (ensure imports text).text ∧
      ∀ edit ∈ edits imports text, (∃ start statement, edit.On start statement) ∧
        ∀ start statement, edit.On start statement →
          (edit.IsDead ↔ edit.place < Code.resume edit.text start.length ∨
            Code.resume edit.text start.length ≤ edit.place ∧
              Code.InsideAt (edit.text.drop (Code.resume edit.text start.length))
                (edit.place - Code.resume edit.text start.length)) ∧
          (¬ Code.InsideAt edit.text start.length → Code.IsPlain statement → ¬ edit.IsDead) := by
  refine ⟨leads_ensure imports text, ?_⟩
  intro edit hedit
  refine ⟨exists_on hedit, ?_⟩
  intro start statement hon
  exact ⟨hon.isDead_iff, hon.not_isDead⟩

/-- Below a comment, lines are inserted behind the anchor. -/
theorem edits_dead_iff_anchor :
    let text := "/* users */\nimport \x7b NextRequest \x7d from 'next/server'\n".toList
    let start := "/* users */\n".toList
    let statement := "import \x7b NextRequest \x7d from 'next/server'".toList
    ∃ edit ∈ edits {} text, edit.On start statement ∧
      ¬ Code.InsideAt edit.text start.length ∧ Code.IsPlain statement ∧ ¬ edit.IsDead := by
  intro text start statement
  let edit : Edit := {
    before := start ++ statement
    old := []
    new := ("\nimport \x7b unstable_cache \x7d from 'next/cache'" ++
      "\nimport \x7b CACHE_TAGS \x7d from '@/lib/cache'").toList
    after := ['\n'] }
  have hedit : edit ∈ edits {} text := by
    rw [show text = _ from String.toList_ofList]
    decide +kernel
  have hon : edit.On start statement :=
    ⟨rfl, .inr ⟨"/* users */".toList, rfl⟩,
      ⟨[], " \x7b NextRequest \x7d from 'next/server'".toList, rfl, by simp⟩, .inr rfl⟩
  have hstart : ¬ Code.InsideAt edit.text start.length := by decide +kernel
  have hplain : Code.IsPlain statement := by
    have hleft : "import \x7b NextRequest \x7d from ".toList.all (fun c => !Code.isInertMark c) = true := by
      decide
    have hbody : Code.QuotedBody '\x27' "next/server".toList := by
      apply Code.quotedBody_of_plain
      decide
    refine @Code.IsPlain.quoting "import \x7b NextRequest \x7d from ".toList _ [] '\x27' ?_ (.inl rfl)
      hbody (by simp)
    intro c hc
    simpa using List.all_eq_true.mp hleft c hc
  obtain ⟨-, hlive⟩ := (edits_dead_iff {} text).2 edit hedit |>.2 start statement hon
  exact ⟨edit, hedit, hon, hstart, hplain, hlive hstart hplain⟩

/-- Imports that are needed are written into dead text, in a comment of either kind, in a template and in
quoted text that goes on in the next line. -/
theorem edits_in_dead_text :
    let texts :=
      ["/*\nimport \x7b NextResponse \x7d from 'next/server'\n*/\n",
       "/*\nimport \x7b revalidateTag \x7d from 'next/cache'\n*/\n",
       "import a from 'x'\n// from 'next/server' (old)\n",
       "log(\x60\nimport \x7b NextResponse \x7d from 'next/server'\n\x60)\n",
       "log('\\\nimport \x7b NextResponse \x7d from \"next/server\"\\\n')\n"]
    ∀ text ∈ texts, ∃ edit ∈ edits {} text.toList,
      ∃ span ∈ Code.spans edit.text, span.start < edit.before.length ∧ edit.place < span.stop := by
  simp only [List.forall_mem_cons, List.not_mem_nil, false_implies, implies_true, and_true]
  refine ⟨?_, ?_, ?_, ?_, ?_⟩ <;> rw [String.toList_ofList] <;> decide +kernel

end CachedRoutes.Import
