import CachedRoutes.Proofs.Report.Summary

/-!
# The two forms of a summary

What the text form and the JSON form of a summary say about the steps that made it.

* **Counts** (`accounts_foldl`): each step is counted in one place, and the order does not matter
  (`withoutRoutes_foldl`).
* **Text** (`shows_lines`): the lines are told apart by their first characters. The list for review
  stands at the end: the first ten routes, and how many more there are, or that there are none.
* **JSON** (`member?_toJson`): all routes.
-/

namespace CachedRoutes

/-- The member of an object with the given key. -/
def Json.member? (key : String) : Json → Option Json
  | object members => members.lookup key
  | _ => none

namespace Summary

/-! ## Counts -/

/-- The summary counts each step in one place and keeps the routes that someone has to look at. -/
structure Accounts (summary : Summary) (steps : List Step) : Prop where
  count : ∀ result, summary.count result = steps.countP (Step.isOf result)
  errors : summary.errors = steps.countP fun step => step.failedRoute?.isSome
  total : summary.total = steps.length
  split : summary.total
    = summary.succeeded + summary.skipped + summary.needsManual + summary.errors
  manualReview : summary.manualReview = steps.filterMap Step.reviewRoute?
  failed : summary.failed = steps.filterMap Step.failedRoute?

/-- A step is counted by one result, or it failed. -/
lemma length_eq_countP (steps : List Step) :
    steps.length = steps.countP (Step.isOf .wrapped) + steps.countP (Step.isOf .importsAdded)
      + (steps.countP (Step.isOf .alreadyCached) + steps.countP (Step.isOf .excluded)
        + steps.countP (Step.isOf .noGetHandler))
      + steps.countP (Step.isOf .needsManualReview)
      + steps.countP fun step => step.failedRoute?.isSome := by
  induction steps with
  | nil => rfl
  | cons first rest ih =>
    simp only [List.length_cons, List.countP_cons, ih]
    cases first with
    | counted route result => cases result <;> simp [Step.isOf, Step.failedRoute?] <;> omega
    | failed route => simp [Step.isOf, Step.failedRoute?]; omega

/-- A summary accounts for all the steps that were taken. -/
lemma accounts_foldl (dryRun : Bool) (steps : List Step) :
    Accounts (steps.foldl step { dryRun }) steps := by
  obtain ⟨htotal, hcount, herrors, hfailed⟩ := foldl_step_counts { dryRun } steps
  obtain ⟨hreview, -⟩ := foldl_step_manualReview { dryRun } steps
  have hcounts (result : Result) :
      (steps.foldl step { dryRun }).count result = steps.countP (Step.isOf result) := by
    rw [hcount]
    cases result <;> exact Nat.zero_add _
  have hfails : (steps.foldl step { dryRun }).errors
      = steps.countP fun step => step.failedRoute?.isSome := by
    rw [herrors, List.length_filterMap_eq_countP]
    exact Nat.zero_add _
  have hlength : (steps.foldl step { dryRun }).total = steps.length := by
    rw [htotal]
    exact Nat.zero_add _
  refine ⟨hcounts, hfails, hlength, ?_, hreview, hfailed⟩
  rw [hlength, hfails, length_eq_countP, ← hcounts, ← hcounts, ← hcounts, ← hcounts, ← hcounts,
    ← hcounts]
  rfl

/-- The counts of a summary, without the routes. -/
def withoutRoutes (summary : Summary) : Summary :=
  { summary with manualReview := [], failed := [] }

/-- Summaries with the same numbers are the same apart from their routes. -/
lemma withoutRoutes_eq {a b : Summary} (htotal : a.total = b.total)
    (hcount : ∀ result, a.count result = b.count result) (herrors : a.errors = b.errors)
    (hdry : a.dryRun = b.dryRun) : a.withoutRoutes = b.withoutRoutes := by
  obtain ⟨⟩ := a
  obtain ⟨⟩ := b
  have hwrapped := hcount .wrapped
  have hadded := hcount .importsAdded
  have hcached := hcount .alreadyCached
  have hexcluded := hcount .excluded
  have hnone := hcount .noGetHandler
  have hmanual := hcount .needsManualReview
  simp only [count] at hwrapped hadded hcached hexcluded hnone hmanual
  simp only [withoutRoutes, mk.injEq]
  exact ⟨htotal, hwrapped, hadded, hcached, hexcluded, hnone, hmanual, herrors, trivial, trivial, hdry⟩

/-- The counts do not depend on the order of the steps. -/
lemma withoutRoutes_foldl {steps other : List Step} (h : other.Perm steps) (dryRun : Bool) :
    (other.foldl step { dryRun }).withoutRoutes
      = (steps.foldl step { dryRun }).withoutRoutes := by
  have hother := accounts_foldl dryRun other
  have hsteps := accounts_foldl dryRun steps
  refine withoutRoutes_eq ?_ ?_ ?_ ?_
  · rw [hother.total, hsteps.total, h.length_eq]
  · intro result
    rw [hother.count, hsteps.count, h.countP_eq]
  · rw [hother.errors, hsteps.errors, h.countP_eq]
  · rw [(foldl_step_manualReview _ other).2, (foldl_step_manualReview _ steps).2]

/-! ## Text -/

/-- The line of a route for review. -/
def entryLine (route : Route) : String := "  • " ++ route.text

/-- The line about the routes for review that are not listed. -/
def moreLine (count : Nat) : String := s!"  ... and {count} more"

/-- The line about no routes for review. -/
def noneLine : String := "  (none)"

/-- The line about the files that could not be read or written. -/
def errorsLine (count : Nat) : String := s!"Errors: {count}"

/-- Does the line begin with the word? -/
def begins (word line : String) : Bool :=
  word.toList.isPrefixOf line.toList

/-- What the lines show: the first ten of the routes for review, in order, then how many more there
are, or that there are none; and how many files could not be read or written, if there are such. -/
structure Shows (lines : List String) (routes : List Route) (errors : Nat) : Prop where
  entries : lines.filter (begins "  • ") = (routes.take 10).map entryLine
  more : lines.filter (begins "  ... and ")
    = if 10 < routes.length then [moreLine (routes.length - 10)] else []
  none : lines.filter (begins "  (none)") = if routes.length = 0 then [noneLine] else []
  /-- The list is the end of the lines. -/
  atEnd : (routes.take 10).map entryLine
      ++ (if 10 < routes.length then [moreLine (routes.length - 10)] else [])
      ++ (if routes.length = 0 then [noneLine] else []) <:+ lines
  errors : lines.filter (begins "Errors: ") = if 0 < errors then [errorsLine errors] else []

/-- A line that is built from a word begins with it. -/
lemma begins_append (word rest : String) : begins word (word ++ rest) = true := by
  unfold begins
  rw [String.toList_append]
  exact List.isPrefixOf_iff_prefix.mpr (List.prefix_append _ _)

/-- A line that has another character in some place does not begin with the word. -/
lemma begins_eq_false {word line : String} (i : Nat) {c : Char} (hword : word.toList[i]? = some c)
    (hline : line.toList[i]? ≠ some c) : begins word line = false := by
  rw [← Bool.not_eq_true, begins, List.isPrefixOf_iff_prefix]
  rintro ⟨rest, hrest⟩
  apply hline
  rw [← hrest, List.getElem?_append_left (List.getElem?_eq_some_iff.mp hword).1, hword]

/-- No line begins with a word if all of them differ from it at one place. -/
lemma filter_begins_eq_nil {word : String} {lines : List String} (i : Nat) {c : Char}
    (hword : word.toList[i]? = some c) (hlines : ∀ line ∈ lines, line.toList[i]? ≠ some c) :
    lines.filter (begins word) = [] := by
  rw [List.filter_eq_nil_iff]
  intro line hline
  rw [begins_eq_false i hword (hlines line hline)]
  exact Bool.false_ne_true

/-- The lines of the list for review are told apart by their third characters. -/
lemma filter_eq_nil_of_third {word : String} {lines : List String} {c d : Char}
    (hword : word.toList[2]? = some c)
    (hlines : ∀ line ∈ lines, line.toList[0]? = some ' ' ∧ line.toList[2]? = some d)
    (hne : d ≠ c) : lines.filter (begins word) = [] := by
  refine filter_begins_eq_nil 2 hword ?_
  intro line hline
  rw [(hlines line hline).2]
  simpa using hne

/-- The lines above the list for review tell the counts. -/
lemma exists_lines_eq (summary : Summary) :
    ∃ heading, (∀ line ∈ heading, line.toList[0]? ≠ some ' ' ∧ line.toList[0]? ≠ some 'E') ∧
      summary.lines = heading
        ++ (if 0 < summary.errors then [errorsLine summary.errors] else [])
        ++ ["", "Routes needing manual caching:"] ++ reviewLines summary.manualReview := by
  refine ⟨_, ?_, rfl⟩
  have hrule : rule.toList[0]? = some '=' := by decide
  intro line hline
  simp only [List.mem_cons, List.not_mem_nil, or_false] at hline
  rcases hline with rfl | rfl | rfl | rfl | rfl | rfl | rfl
  · rw [hrule]
    decide
  · split <;> decide
  · rw [hrule]
    decide
  all_goals simp [toString]

section Review

variable (routes : List Route)

/-- The routes that the text form lists. -/
def entryLines : List String := (routes.take 10).map entryLine

/-- What it says about the others. -/
def moreLines : List String :=
  if 10 < routes.length then [moreLine (routes.length - 10)] else []

/-- What it says if there is no route. -/
def noneLines : List String := if routes.length = 0 then [noneLine] else []

/-- The lines for the review are the entries, the line on those left out, and the one for none. -/
lemma reviewLines_eq : reviewLines routes = entryLines routes ++ moreLines routes ++ noneLines routes := by
  cases routes with
  | nil => rfl
  | cons route routes =>
    have hnone : noneLines (route :: routes) = [] := if_neg (Nat.succ_ne_zero _)
    rw [hnone, List.append_nil]
    rfl

/-- The line of an entry has a bullet at its third place. -/
lemma getElem?_entryLines : ∀ line ∈ entryLines routes,
    line.toList[0]? = some ' ' ∧ line.toList[2]? = some '•' := by
  intro line hline
  obtain ⟨route, -, rfl⟩ := List.mem_map.mp hline
  simp [entryLine]

/-- The line on entries that are left out has a dot at its third place. -/
lemma getElem?_moreLines : ∀ line ∈ moreLines routes,
    line.toList[0]? = some ' ' ∧ line.toList[2]? = some '.' := by
  intro line hline
  unfold moreLines at hline
  split at hline
  · obtain rfl := List.mem_singleton.mp hline
    simp [moreLine, toString]
  · cases hline

/-- The line for no entries has a parenthesis at its third place. -/
lemma getElem?_noneLines : ∀ line ∈ noneLines routes,
    line.toList[0]? = some ' ' ∧ line.toList[2]? = some '(' := by
  intro line hline
  unfold noneLines at hline
  split at hline
  · obtain rfl := List.mem_singleton.mp hline
    decide
  · cases hline

end Review

section Lines

variable (summary : Summary) {word : String}

/-- Words that begin with a blank are looked for in the list for review. -/
lemma filter_lines_of_blank (hword : word.toList[0]? = some ' ') :
    summary.lines.filter (begins word)
      = (entryLines summary.manualReview).filter (begins word)
        ++ (moreLines summary.manualReview).filter (begins word)
        ++ (noneLines summary.manualReview).filter (begins word) := by
  obtain ⟨heading, hheading, hlines⟩ := exists_lines_eq summary
  have hcounts : heading.filter (begins word) = [] :=
    filter_begins_eq_nil 0 hword fun line hline => (hheading line hline).1
  have herrors : (if 0 < summary.errors then [errorsLine summary.errors] else []).filter
      (begins word) = [] := by
    refine filter_begins_eq_nil 0 hword ?_
    intro line hline
    split at hline
    · obtain rfl := List.mem_singleton.mp hline
      simp [errorsLine, toString]
    · cases hline
  have htitle : ["", "Routes needing manual caching:"].filter (begins word) = [] := by
    refine filter_begins_eq_nil 0 hword ?_
    simp
  rw [hlines, reviewLines_eq, List.filter_append, List.filter_append, List.filter_append,
    List.filter_append, List.filter_append, hcounts, herrors, htitle]
  rfl

/-- All lines of entries begin as such. -/
lemma filter_entryLines (routes : List Route) :
    (entryLines routes).filter (begins "  • ") = entryLines routes := by
  rw [List.filter_eq_self]
  intro line hline
  obtain ⟨route, -, rfl⟩ := List.mem_map.mp hline
  exact begins_append _ _

/-- The line on entries that are left out begins as such. -/
lemma filter_moreLines (routes : List Route) :
    (moreLines routes).filter (begins "  ... and ") = moreLines routes := by
  rw [List.filter_eq_self]
  intro line hline
  unfold moreLines at hline
  split at hline
  · obtain rfl := List.mem_singleton.mp hline
    rw [moreLine, String.append_assoc]
    exact begins_append _ _
  · cases hline

/-- The line for no entries begins as such. -/
lemma filter_noneLines (routes : List Route) :
    (noneLines routes).filter (begins "  (none)") = noneLines routes := by
  unfold noneLines
  split <;> rfl

/-- The first letter of the line about errors is its own. -/
lemma filter_lines_errors :
    summary.lines.filter (begins "Errors: ")
      = if 0 < summary.errors then [errorsLine summary.errors] else [] := by
  obtain ⟨heading, hheading, hlines⟩ := exists_lines_eq summary
  have hword : "Errors: ".toList[0]? = some 'E' := by decide
  have hcounts : heading.filter (begins "Errors: ") = [] :=
    filter_begins_eq_nil 0 hword fun line hline => (hheading line hline).2
  have htitle : ["", "Routes needing manual caching:"].filter (begins "Errors: ") = [] := by
    refine filter_begins_eq_nil 0 hword ?_
    simp
  have hreview : (reviewLines summary.manualReview).filter (begins "Errors: ") = [] := by
    refine filter_begins_eq_nil 0 hword ?_
    intro line hline
    rw [reviewLines_eq, List.mem_append, List.mem_append] at hline
    rcases hline with (hline | hline) | hline
    · rw [(getElem?_entryLines _ line hline).1]
      decide
    · rw [(getElem?_moreLines _ line hline).1]
      decide
    · rw [(getElem?_noneLines _ line hline).1]
      decide
  have herrors : (if 0 < summary.errors then [errorsLine summary.errors] else []).filter
      (begins "Errors: ") = if 0 < summary.errors then [errorsLine summary.errors] else [] := by
    split
    · have hbegins : begins "Errors: " (errorsLine summary.errors) = true := begins_append _ _
      rw [List.filter_singleton, hbegins]
      rfl
    · rfl
  rw [hlines, List.filter_append, List.filter_append, List.filter_append, hcounts, herrors, htitle,
    hreview, List.nil_append, List.append_nil, List.append_nil]

/-- What the text form shows. -/
lemma shows_lines : Shows summary.lines summary.manualReview summary.errors where
  entries := by
    rw [filter_lines_of_blank summary (by decide), filter_entryLines,
      filter_eq_nil_of_third (c := '•') (by decide) (getElem?_moreLines _) (by decide),
      filter_eq_nil_of_third (c := '•') (by decide) (getElem?_noneLines _) (by decide),
      List.append_nil, List.append_nil]
    rfl
  more := by
    rw [filter_lines_of_blank summary (by decide), filter_moreLines,
      filter_eq_nil_of_third (c := '.') (by decide) (getElem?_entryLines _) (by decide),
      filter_eq_nil_of_third (c := '.') (by decide) (getElem?_noneLines _) (by decide),
      List.nil_append, List.append_nil]
    rfl
  none := by
    rw [filter_lines_of_blank summary (by decide), filter_noneLines,
      filter_eq_nil_of_third (c := '(') (by decide) (getElem?_entryLines _) (by decide),
      filter_eq_nil_of_third (c := '(') (by decide) (getElem?_moreLines _) (by decide)]
    rfl
  atEnd := by
    obtain ⟨heading, -, hlines⟩ := exists_lines_eq summary
    rw [hlines, reviewLines_eq]
    exact List.suffix_append _ _
  errors := filter_lines_errors summary

end Lines

/-! ## JSON -/

/-- The JSON form lists all routes, whatever further members it has under other keys. -/
lemma member?_toJson (summary : Summary) (time : Timestamp) {further : List (String × Json)}
    (hfurther : ∀ member ∈ further, member.1 ≠ "manual_review") :
    (summary.toJson time further).member? "manual_review"
      = some (.array (summary.manualReview.map fun route => .string route.text)) := by
  have hlookup : further.lookup "manual_review" = none := by
    rw [List.lookup_eq_none_iff]
    intro member hmember
    exact bne_iff_ne.mpr (hfurther member hmember).symm
  unfold toJson Json.member?
  dsimp only
  rw [List.lookup_append, List.lookup_append, hlookup]
  rfl

/-! ## The whole summary -/

/-- A summary that starts new counts each step in one place, whatever the order, and keeps the routes
of the files that need review or failed, in the order of the steps. Its text form shows the first ten
routes for review and how many more there are, and has a line about errors if there are some; its
JSON form shows all. -/
theorem foldl_step_tells (dryRun : Bool) (steps : List Step) :
    Accounts (steps.foldl step { dryRun }) steps ∧
      (∀ other : List Step, other.Perm steps → (other.foldl step { dryRun }).withoutRoutes
        = (steps.foldl step { dryRun }).withoutRoutes) ∧
      Shows (steps.foldl step { dryRun }).lines (steps.filterMap Step.reviewRoute?)
        (steps.countP fun step => step.failedRoute?.isSome) ∧
      ∀ time further, (∀ member ∈ further, member.1 ≠ "manual_review") →
        ((steps.foldl step { dryRun }).toJson time further).member? "manual_review"
          = some (.array ((steps.filterMap Step.reviewRoute?).map fun route => .string route.text)) := by
  have haccounts := accounts_foldl dryRun steps
  refine ⟨haccounts, fun other hperm => withoutRoutes_foldl hperm dryRun, ?_, ?_⟩
  · rw [← haccounts.manualReview, ← haccounts.errors]
    exact shows_lines _
  · intro time further hfurther
    rw [← haccounts.manualReview]
    exact member?_toJson _ time hfurther

/-- A file fails between twelve that need review: the text form leaves two of them out, the JSON form
none. -/
theorem foldl_step_tells_crowded :
    let first : Step := .counted ⟨"a/route.ts"⟩ .needsManualReview
    let last : Step := .counted ⟨"b/route.ts"⟩ .needsManualReview
    let steps := List.replicate 9 first ++ .failed ⟨"c/route.ts"⟩ :: List.replicate 3 last
    let summary := steps.foldl step { dryRun := true }
    let further : List (String × Json) := [("files", .array [])]
    steps.reverse.Perm steps ∧ (∀ member ∈ further, member.1 ≠ "manual_review") ∧
      (steps.reverse.foldl step { dryRun := true }).withoutRoutes = summary.withoutRoutes ∧
      summary.failed = [⟨"c/route.ts"⟩] ∧
      summary.lines.filter (begins "  • ")
        = List.replicate 9 "  • a/route.ts" ++ ["  • b/route.ts"] ∧
      summary.lines.filter (begins "  ... and ") = ["  ... and 2 more"] ∧
      summary.lines.filter (begins "Errors: ") = ["Errors: 1"] ∧
      (summary.toJson ⟨0, 0⟩ further).member? "manual_review"
        = some (.array (List.replicate 9 (.string "a/route.ts")
          ++ List.replicate 3 (.string "b/route.ts"))) := by
  intro first last steps summary further
  have hperm : steps.reverse.Perm steps := List.reverse_perm steps
  have hfurther : ∀ member ∈ further, member.1 ≠ "manual_review" := by simp [further]
  obtain ⟨haccounts, horder, hshows, hjson⟩ := foldl_step_tells true steps
  refine ⟨hperm, hfurther, horder _ hperm, haccounts.failed.trans rfl, ?_, ?_, ?_, ?_⟩
  · exact hshows.entries.trans (by decide)
  · exact hshows.more.trans (by decide)
  · exact hshows.errors.trans (by decide)
  · exact (hjson ⟨0, 0⟩ further hfurther).trans rfl

end Summary

end CachedRoutes
