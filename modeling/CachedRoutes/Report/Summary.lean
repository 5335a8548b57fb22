import CachedRoutes.Codemod
import CachedRoutes.Json
import CachedRoutes.Report.Timestamp

/-!
# The summary of a run

A summary counts the files of a run by result and remembers which routes need a person's attention
and which files could not be read or written. Its text form lists at most ten routes for review, its
JSON form all of them.
-/

namespace CachedRoutes

/-- The counts of a run. -/
structure Summary where
  total : Nat := 0
  wrapped : Nat := 0
  importsAdded : Nat := 0
  alreadyCached : Nat := 0
  excluded : Nat := 0
  noGetHandler : Nat := 0
  needsManual : Nat := 0
  /-- Files that could not be read or written. -/
  errors : Nat := 0
  /-- Routes that need manual review, in order. -/
  manualReview : List Route := []
  /-- Routes of the files that could not be read or written, in order. -/
  failed : List Route := []
  /-- Were no files written? -/
  dryRun : Bool := false
  deriving DecidableEq, Repr

namespace Summary

/-- Counts a file by its result. -/
def record (summary : Summary) (route : Route) (result : Result) : Summary :=
  let summary := { summary with total := summary.total + 1 }
  match result with
  | .wrapped => { summary with wrapped := summary.wrapped + 1 }
  | .importsAdded => { summary with importsAdded := summary.importsAdded + 1 }
  | .alreadyCached => { summary with alreadyCached := summary.alreadyCached + 1 }
  | .excluded => { summary with excluded := summary.excluded + 1 }
  | .noGetHandler => { summary with noGetHandler := summary.noGetHandler + 1 }
  | .needsManualReview =>
    { summary with
      needsManual := summary.needsManual + 1
      manualReview := summary.manualReview ++ [route] }

/-- Counts a file that could not be read or written. -/
def recordError (summary : Summary) (route : Route) : Summary :=
  { summary with
    total := summary.total + 1
    errors := summary.errors + 1
    failed := summary.failed ++ [route] }

/-- Files brought closer to being cached. -/
def succeeded (summary : Summary) : Nat :=
  summary.wrapped + summary.importsAdded

/-- Files left alone as expected. -/
def skipped (summary : Summary) : Nat :=
  summary.alreadyCached + summary.excluded + summary.noGetHandler

/-! ## Text form -/

/-- How many routes for review the text form lists. -/
def listCap : Nat := 10

/-- The list of routes for review, at most `listCap` of them. -/
def reviewLines (routes : List Route) : List String :=
  if routes.isEmpty then ["  (none)"]
  else
    (routes.take listCap).map (fun route => "  • " ++ route.text)
      ++ (if routes.length > listCap then [s!"  ... and {routes.length - listCap} more"] else [])

/-- The line above and below the title. -/
def rule : String :=
  "".pushn '=' 70

/-- The text form, line by line. -/
def lines (summary : Summary) : List String :=
  [ rule,
    if summary.dryRun then "SUMMARY (dry run, no files written)" else "SUMMARY",
    rule,
    s!"Total routes: {summary.total}",
    s!"Succeeded: {summary.succeeded} (wrapped: {summary.wrapped}, "
      ++ s!"imports added: {summary.importsAdded})",
    s!"Skipped: {summary.skipped} (already cached: {summary.alreadyCached}, "
      ++ s!"excluded: {summary.excluded}, no GET handler: {summary.noGetHandler})",
    s!"Needs manual review: {summary.needsManual}" ]
    ++ (if summary.errors > 0 then [s!"Errors: {summary.errors}"] else [])
    ++ ["", "Routes needing manual caching:"]
    ++ reviewLines summary.manualReview

/-! ## JSON form -/

/-- A list of routes. -/
def routesJson (routes : List Route) : Json :=
  .array (routes.map fun route => .string route.text)

/-- The JSON form of a summary, made at the given time, with the given further members between
`failed` and `generated_at`. Members are in ascending order. -/
def toJson (summary : Summary) (time : Timestamp) (further : List (String × Json)) : Json :=
  .object
    ([ ("counts",
        .object
          [ ("already_cached", .number summary.alreadyCached),
            ("excluded", .number summary.excluded),
            ("imports_added", .number summary.importsAdded),
            ("needs_manual_review", .number summary.needsManual),
            ("no_get_handler", .number summary.noGetHandler),
            ("wrapped", .number summary.wrapped) ]),
      ("dry_run", .bool summary.dryRun),
      ("errors", .number summary.errors),
      ("failed", routesJson summary.failed) ]
      ++ further
      ++ [ ("generated_at", .string time.write),
        ("manual_review", routesJson summary.manualReview),
        ("needs_manual", .number summary.needsManual),
        ("skipped", .number summary.skipped),
        ("succeeded", .number summary.succeeded),
        ("total", .number summary.total) ])

end Summary

end CachedRoutes
