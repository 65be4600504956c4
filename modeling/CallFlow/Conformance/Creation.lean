import CallFlow.Conformance.Check

/-! # New runs

A run is created as it was asked for, at version zero, with an empty session, an id of its
own and no history.
-/
namespace CallFlow.Conformance.Creation
variable (σ : Type) [Backend σ]

def startsAtVersionZero : CheckM σ Unit := do
  let run ← seedRun
  let stored ← ask (Backend.run run.id)
  require (stored.version = 0) ("expected version 0, got " ++ toString stored.version)

def preservesFields : CheckM σ Unit := do
  let run ← seedRun
  let stored ← ask (Backend.run run.id)
  require (stored.state = newRun.state && stored.branch = newRun.branch &&
    stored.configTag = newRun.configTag) ("fields not preserved: " ++ shownRun stored)

def startsWithEmptySession : CheckM σ Unit := do
  let run ← seedRun
  let stored ← ask (Backend.run run.id)
  require stored.session.isEmpty
    ("expected empty session, got " ++ (Json.ofFields stored.session).print)

def getsDistinctIds : CheckM σ Unit := do
  let a : RunRecord ← seedRun
  let b ← seedRun
  require (a.id ≠ b.id) ("both runs got id " ++ toString a.id)

def hasNoHistory : CheckM σ Unit := do
  let run ← seedRun
  match ← ask (Backend.latestPosition run.id) with
  | some p => throw ("expected no history, got " ++ shownPosition p)
  | none =>
    let history ← ask (Backend.history run.id)
    require history.isEmpty
      ("expected empty history, got " ++ toString history.length ++ " entries")

def checks : List (Check σ) := [
  ⟨"init", "insert_creates_run_at_version_0", startsAtVersionZero σ⟩,
  ⟨"init", "insert_preserves_fields", preservesFields σ⟩,
  ⟨"init", "insert_starts_with_empty_session", startsWithEmptySession σ⟩,
  ⟨"init", "runs_get_distinct_ids", getsDistinctIds σ⟩,
  ⟨"init", "new_run_has_no_history", hasNoHistory σ⟩]

end CallFlow.Conformance.Creation
