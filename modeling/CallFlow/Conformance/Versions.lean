import CallFlow.Conformance.Check

/-! # Versions

Every update raises the version by one, and an update from a stale version is a conflict,
when it is staged or when it is committed.
-/
namespace CallFlow.Conformance.Versions
variable (σ : Type) [Backend σ]

def updateIncrements : CheckM σ Unit := do
  let run ← seedRun
  let version ← committed (σ := σ) (Backend.updateRun run)
  require (version = 1) ("expected new version 1, got " ++ toString version)
  let stored ← ask (Backend.run (σ := σ) run.id)
  require (stored.version = 1) ("expected stored version 1, got " ++ toString stored.version)

def updateInTurn (run : RunRecord) : List Int → CheckM σ Unit
  | [] => pure ()
  | expected :: rest => do
    let version ← committed (σ := σ) (Backend.updateRun run)
    require (version = expected)
      ("expected version " ++ toString expected ++ ", got " ++ toString version)
    updateInTurn { run with version } rest

def incrementSequentially : CheckM σ Unit := do
  updateInTurn σ (← seedRun) [1, 2, 3]

def staleConflict : CheckM σ Unit := do
  let run ← seedRun
  let _ ← committed (σ := σ) (Backend.updateRun run)
  match ← tryStaging (σ := σ) (Backend.updateRun run) with
  | .error (.concurrentConflict ..) => return ()
  | other => throw ("expected ConcurrentConflict, got " ++ shownOutcome toString other)

def conflictFields : CheckM σ Unit := do
  let run ← seedRun
  let outcome ← tryStaging (σ := σ) (Backend.updateRun { run with version := 7 })
  let asExpected := match outcome with
    | .error e => e = .concurrentConflict run.id 7
    | .ok _ => false
  require asExpected ("expected ConcurrentConflict(" ++ toString run.id ++ ", 7), got " ++
    shownOutcome toString outcome)

def raceHasOneWinner : CheckM σ Unit := do
  let run ← seedRun
  let first ← ask (Backend.openSnapshot (σ := σ))
  let second ← ask (Backend.openSnapshot (σ := σ))
  let (_, first) ← ask (Backend.updateRun (σ := σ) { run with state := "initialized" } first)
  let (_, second) ← ask (Backend.updateRun (σ := σ) { run with state := "error" } second)
  ask (Backend.commit (σ := σ) first)
  match ← Effect.outcome (Backend.commit (σ := σ) second) with
  | .error (.concurrentConflict ..) =>
    let stored ← ask (Backend.run (σ := σ) run.id)
    require (stored.state = "initialized" && stored.version = 1)
      ("expected winner's state at version 1, got " ++ shownRun stored)
  | other =>
    throw ("expected second commit to conflict, got " ++ shownOutcome (fun _ => "()") other)

def loserAppliesNothing : CheckM σ Unit := do
  let run ← seedRun
  let winner ← ask (Backend.openSnapshot (σ := σ))
  let loser ← ask (Backend.openSnapshot (σ := σ))
  let (_, loser) ←
    ask (Backend.insertStepRun (σ := σ) (newStepRun run.id "root" "greeting") loser)
  let (_, loser) ← ask (Backend.updateRun (σ := σ) run loser)
  let (_, winner) ← ask (Backend.updateRun (σ := σ) run winner)
  ask (Backend.commit (σ := σ) winner)
  match ← Effect.outcome (Backend.commit (σ := σ) loser) with
  | .ok () => throw "expected losing commit to fail"
  | .error _ =>
    let found ← ask (Backend.findStepRun (σ := σ) run.id "root" "greeting")
    require found.isNone "losing snapshot's step run was applied"

def checks : List (Check σ) := [
  ⟨"version", "update_returns_incremented_version", updateIncrements σ⟩,
  ⟨"version", "versions_increment_sequentially", incrementSequentially σ⟩,
  ⟨"version", "stale_version_returns_conflict", staleConflict σ⟩,
  ⟨"version", "conflict_has_correct_fields", conflictFields σ⟩,
  ⟨"version", "two_snapshots_race_one_wins", raceHasOneWinner σ⟩,
  ⟨"version", "losing_snapshot_applies_nothing", loserAppliesNothing σ⟩]

end CallFlow.Conformance.Versions
