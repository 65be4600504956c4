import CallFlow.Conformance.Check

/-! # History

Positions are listed in order and their orders are unique within a run; step runs are found
by branch and name, the most recent visit first; a branch switch stays marked.
-/
namespace CallFlow.Conformance.Order
variable (σ : Type) [Backend σ]

def latestHasHighestOrder : CheckM σ Unit := do
  let run : RunRecord ← seedRun
  let _ ← seedPosition run.id "root" "greeting" 1
  let _ ← seedPosition run.id "root" "account" 2
  let last ← seedPosition run.id "root" "goodbye" 3
  let latest ← ask (Backend.latestPosition run.id)
  let latest ← expectSome latest "expected a latest position"
  require (latest.order = 3 && latest.stepRun = last.id)
    ("expected run_order 3 -> goodbye, got " ++ shownPosition latest)

def listedInOrder : CheckM σ Unit := do
  let run : RunRecord ← seedRun
  let _ ← seedPosition run.id "root" "greeting" 1
  let _ ← seedPosition run.id "root" "account" 2
  let _ ← seedPosition run.id "cutoff" "notice" 3
  let history ← ask (Backend.history run.id)
  let names := history.map (·.stepRun.name)
  require (names = ["greeting", "account", "notice"])
    ("unexpected history order: " ++ shownList .str names)

def duplicateOrder : CheckM σ Unit := do
  let run : RunRecord ← seedRun
  let stepRun ← seedPosition run.id "root" "greeting" 1
  match ← tryStaging (σ := σ) (Backend.insertPosition ⟨run.id, stepRun.id, 1⟩) with
  | .error (.duplicateOrder r order) =>
    require (order = 1) ("expected DuplicateRunOrder(1), got " ++
      shownOutcome shownPosition (.error (.duplicateOrder r order)))
  | other => throw ("expected DuplicateRunOrder(1), got " ++ shownOutcome shownPosition other)

def duplicateOrderInSnapshot : CheckM σ Unit := do
  let run ← seedRun
  let snapshot ← ask (Backend.openSnapshot (σ := σ))
  let (stepRun, snapshot) ←
    ask (Backend.insertStepRun (σ := σ) (newStepRun run.id "root" "greeting") snapshot)
  let new : NewPosition := ⟨run.id, stepRun.id, 1⟩
  let (_, snapshot) ← ask (Backend.insertPosition (σ := σ) new snapshot)
  match ← Effect.outcome (Backend.insertPosition (σ := σ) new snapshot) with
  | .error (.duplicateOrder ..) => ask (Backend.abort (σ := σ) snapshot)
  | .error e =>
    ask (Backend.abort (σ := σ) snapshot)
    throw ("expected DuplicateRunOrder, got " ++ shownOutcome shownPosition (.error e))
  | .ok (p, snapshot) =>
    ask (Backend.abort (σ := σ) snapshot)
    throw ("expected DuplicateRunOrder, got " ++ shownOutcome shownPosition (.ok p))

def findsMostRecentVisit : CheckM σ Unit := do
  let run : RunRecord ← seedRun
  let _ ← seedPosition run.id "root" "menu" 1
  let _ ← seedPosition run.id "root" "other" 2
  let second ← seedPosition run.id "root" "menu" 3
  let found ← ask (Backend.findStepRun run.id "root" "menu")
  let found ← expectSome found "expected to find 'menu'"
  require (found.id = second.id) ("expected most recent visit " ++ toString second.id ++
    ", got " ++ toString found.id)

def findsByBranch : CheckM σ Unit := do
  let run : RunRecord ← seedRun
  let _ ← seedPosition run.id "root" "notice" 1
  match ← ask (Backend.findStepRun run.id "cutoff" "notice") with
  | none => return ()
  | some found => throw ("expected no 'notice' on cutoff, got " ++ shownStepRun found)

def scopedByRun : CheckM σ Unit := do
  let a : RunRecord ← seedRun
  let b : RunRecord ← seedRun
  let _ ← seedPosition a.id "root" "greeting" 1
  let _ ← seedPosition b.id "root" "greeting" 1
  let _ ← seedPosition b.id "root" "account" 2
  let ofA ← ask (Backend.history a.id)
  let ofB ← ask (Backend.history b.id)
  require (ofA.length = 1 && ofB.length = 2)
    ("expected 1 and 2 entries, got " ++ toString ofA.length ++ " and " ++ toString ofB.length)

def markPersists : CheckM σ Unit := do
  let run : RunRecord ← seedRun
  let _ ← seedPosition run.id "root" "account" 1
  let latest ← ask (Backend.latestPosition run.id)
  let position ← expectSome latest "expected a position"
  require (!position.branchedOnError) "new position already marked"
  committed (σ := σ) (fun s => do return ((), ← Backend.markBranched position.id s))
  let latest ← ask (Backend.latestPosition run.id)
  let reread ← expectSome latest "expected a position"
  require reread.branchedOnError "branched_on_error not persisted"

def checks : List (Check σ) := [
  ⟨"history", "latest_position_has_max_run_order", latestHasHighestOrder σ⟩,
  ⟨"history", "positions_listed_in_run_order", listedInOrder σ⟩,
  ⟨"history", "duplicate_run_order_rejected", duplicateOrder σ⟩,
  ⟨"history", "duplicate_run_order_rejected_within_snapshot", duplicateOrderInSnapshot σ⟩,
  ⟨"history", "find_step_run_returns_most_recent_visit", findsMostRecentVisit σ⟩,
  ⟨"history", "find_step_run_scoped_by_branch", findsByBranch σ⟩,
  ⟨"history", "history_scoped_by_run", scopedByRun σ⟩,
  ⟨"history", "mark_branched_on_error_persists", markPersists σ⟩]

end CallFlow.Conformance.Order
