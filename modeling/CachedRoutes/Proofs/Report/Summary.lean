import CachedRoutes.Report.Summary
import Mathlib.Data.List.Basic

/-!
# Summaries, step by step

A summary is made in steps: a file is counted by its result, or it is counted as failed. What a
sequence of steps does to the counts is said once for each of them, by induction on the steps.
-/

namespace CachedRoutes.Summary

/-- One step of a summary. -/
inductive Step where
  /-- A file is counted by its result. -/
  | counted (route : Route) (result : Result)
  /-- A file could not be read or written. -/
  | failed (route : Route)
  deriving DecidableEq, Repr

namespace Step

/-- Does the step count a file with the result? -/
def isOf (result : Result) : Step → Bool
  | counted _ found => found == result
  | failed _ => false

/-- The route of a file that could not be read or written. -/
def failedRoute? : Step → Option Route
  | counted _ _ => none
  | failed route => some route

/-- The route of a file that needs manual review. -/
def reviewRoute? : Step → Option Route
  | counted route .needsManualReview => some route
  | _ => none

end Step

/-- The summary after one more step. -/
def step (summary : Summary) : Step → Summary
  | .counted route result => summary.record route result
  | .failed route => summary.recordError route

/-- How many files had the result. -/
def count (summary : Summary) : Result → Nat
  | .wrapped => summary.wrapped
  | .importsAdded => summary.importsAdded
  | .alreadyCached => summary.alreadyCached
  | .excluded => summary.excluded
  | .noGetHandler => summary.noGetHandler
  | .needsManualReview => summary.needsManual

section Steps

variable (summary : Summary) (steps : List Step)

/-- What one step does to the counts. -/
lemma step_counts (step : Step) :
    (summary.step step).total = summary.total + 1 ∧
      (∀ result, (summary.step step).count result
        = summary.count result + if step.isOf result then 1 else 0) ∧
      (summary.step step).errors = summary.errors + step.failedRoute?.toList.length ∧
      (summary.step step).failed = summary.failed ++ step.failedRoute?.toList := by
  cases step with
  | counted route counted =>
    refine ⟨by cases counted <;> rfl, ?_, by cases counted <;> rfl, ?_⟩
    · intro result
      cases counted <;> cases result <;> rfl
    · cases counted <;> simp [Summary.step, record, Step.failedRoute?]
  | failed route =>
    refine ⟨rfl, ?_, rfl, rfl⟩
    intro result
    cases result <;> rfl

/-- What steps do to the counts: each is counted once, in one place. -/
lemma foldl_step_counts :
    (steps.foldl step summary).total = summary.total + steps.length ∧
      (∀ result, (steps.foldl step summary).count result
        = summary.count result + steps.countP (Step.isOf result)) ∧
      (steps.foldl step summary).errors
        = summary.errors + (steps.filterMap Step.failedRoute?).length ∧
      (steps.foldl step summary).failed
        = summary.failed ++ steps.filterMap Step.failedRoute? := by
  induction steps generalizing summary with
  | nil => simp
  | cons first rest ih =>
    obtain ⟨htotal, hcount, herrors, hfailed⟩ := summary.step_counts first
    obtain ⟨ihtotal, ihcount, iherrors, ihfailed⟩ := ih (summary.step first)
    refine ⟨?_, ?_, ?_, ?_⟩
    · rw [List.foldl_cons, ihtotal, htotal, List.length_cons]
      omega
    · intro result
      rw [List.foldl_cons, ihcount, hcount, List.countP_cons]
      omega
    · rw [List.foldl_cons, iherrors, herrors]
      simp only [List.filterMap_eq_flatMap_toList, List.flatMap_cons, List.length_append]
      omega
    · rw [List.foldl_cons, ihfailed, hfailed]
      simp only [List.filterMap_eq_flatMap_toList, List.flatMap_cons, List.append_assoc]

/-- What steps do to the routes for review, and that they leave the kind of the run alone. -/
lemma foldl_step_manualReview :
    (steps.foldl step summary).manualReview
        = summary.manualReview ++ steps.filterMap Step.reviewRoute? ∧
      (steps.foldl step summary).dryRun = summary.dryRun := by
  induction steps generalizing summary with
  | nil => simp
  | cons first rest ih =>
    have hstep : (summary.step first).manualReview
          = summary.manualReview ++ first.reviewRoute?.toList ∧
        (summary.step first).dryRun = summary.dryRun := by
      cases first with
      | counted route result =>
        cases result <;> simp [Summary.step, record, Step.reviewRoute?]
      | failed route => simp [Summary.step, recordError, Step.reviewRoute?]
    obtain ⟨ihreview, ihdry⟩ := ih (summary.step first)
    refine ⟨?_, ?_⟩
    · rw [List.foldl_cons, ihreview, hstep.1]
      simp only [List.filterMap_eq_flatMap_toList, List.flatMap_cons, List.append_assoc]
    · rw [List.foldl_cons, ihdry, hstep.2]

end Steps

end CachedRoutes.Summary
