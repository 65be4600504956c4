import CallFlow.Conformance.Check

/-! # Snapshots

Writes that were not committed are invisible, committed ones are visible together, and
aborted ones are gone.
-/
namespace CallFlow.Conformance.Isolation
variable (σ : Type) [Backend σ]

def uncommittedRun : CheckM σ Unit := do
  let snapshot ← ask (Backend.openSnapshot (σ := σ))
  let (run, snapshot) ← ask (Backend.insertRun (σ := σ) newRun snapshot)
  let visible ← Effect.outcome (Backend.run (σ := σ) run.id)
  ask (Backend.abort (σ := σ) snapshot)
  match visible with
  | .error (.runNotFound _) => return ()
  | other => throw ("uncommitted run was visible: " ++ shownOutcome shownRun other)

def abortedRun : CheckM σ Unit := do
  let snapshot ← ask (Backend.openSnapshot (σ := σ))
  let (run, snapshot) ← ask (Backend.insertRun (σ := σ) newRun snapshot)
  ask (Backend.abort (σ := σ) snapshot)
  match ← Effect.outcome (Backend.run (σ := σ) run.id) with
  | .error (.runNotFound _) => return ()
  | other => throw ("aborted run was visible: " ++ shownOutcome shownRun other)

def uncommittedUpdate : CheckM σ Unit := do
  let run ← seedRun
  let snapshot ← ask (Backend.openSnapshot (σ := σ))
  let (_, snapshot) ← ask (Backend.updateRun (σ := σ) { run with state := "initialized" } snapshot)
  let stored ← ask (Backend.run (σ := σ) run.id)
  ask (Backend.abort (σ := σ) snapshot)
  require (stored.state = "uninitialized" && stored.version = 0)
    ("uncommitted update was visible: " ++ shownRun stored)

def committedUpdate : CheckM σ Unit := do
  let run ← seedRun
  let account := Json.str "1234"
  let changed := { run with
    state := "step_in_progress"
    branch := "cutoff"
    session := run.session.insert "account" account }
  let _ ← committed (σ := σ) (Backend.updateRun changed)
  let stored ← ask (Backend.run (σ := σ) run.id)
  require (stored.state = "step_in_progress" && stored.branch = "cutoff" &&
    stored.session.get? "account" = some account)
    ("committed update not visible: " ++ shownRun stored)

def linkedRecords : CheckM σ Unit := do
  let run ← ask do
    let snapshot ← Backend.openSnapshot (σ := σ)
    let (run, snapshot) ← Backend.insertRun (σ := σ) newRun snapshot
    let (stepRun, snapshot) ←
      Backend.insertStepRun (σ := σ) (newStepRun run.id "root" "greeting") snapshot
    let (_, snapshot) ← Backend.insertPosition (σ := σ) ⟨run.id, stepRun.id, 1⟩ snapshot
    Backend.commit (σ := σ) snapshot
    return run
  let history ← ask (Backend.history (σ := σ) run.id)
  require (history.map (·.stepRun.name) = ["greeting"])
    ("expected one 'greeting' entry, got " ++ shownList HistoryEntry.toJson history)

def abortedHistory : CheckM σ Unit := do
  let run ← seedRun
  ask do
    let snapshot ← Backend.openSnapshot (σ := σ)
    let (stepRun, snapshot) ←
      Backend.insertStepRun (σ := σ) (newStepRun run.id "root" "greeting") snapshot
    let (_, snapshot) ← Backend.insertPosition (σ := σ) ⟨run.id, stepRun.id, 1⟩ snapshot
    Backend.abort (σ := σ) snapshot
  let latest ← ask (Backend.latestPosition (σ := σ) run.id)
  require latest.isNone "aborted position was visible"
  let found ← ask (Backend.findStepRun (σ := σ) run.id "root" "greeting")
  require found.isNone "aborted step run was visible"

def checks : List (Check σ) := [
  ⟨"snapshot", "uncommitted_run_invisible", uncommittedRun σ⟩,
  ⟨"snapshot", "aborted_run_invisible", abortedRun σ⟩,
  ⟨"snapshot", "uncommitted_update_invisible", uncommittedUpdate σ⟩,
  ⟨"snapshot", "committed_update_visible", committedUpdate σ⟩,
  ⟨"snapshot", "records_linked_within_one_snapshot", linkedRecords σ⟩,
  ⟨"snapshot", "aborted_history_discarded", abortedHistory σ⟩]

end CallFlow.Conformance.Isolation
