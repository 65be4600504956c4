import CallFlow.Conformance.Check

/-! # Attempts

Attempts are an append-only record: a change is refused, has no effect, and the order of
appending is kept.
-/
namespace CallFlow.Conformance.Append
variable (σ : Type) [Backend σ]

def appendAttempt (stepRun : Int) (failed : Bool) : CheckM σ AttemptRecord :=
  let kind := if failed then "error" else "success"
  committed (σ := σ) (Backend.insertAttempt
    ⟨stepRun, some (.str "1234"), .obj [("kind", .str kind)], failed, failed⟩)

def seedStepRun : CheckM σ StepRunRecord := do
  let run : RunRecord ← seedRun
  seedPosition run.id "root" "account" 1

def changeRefused : CheckM σ Unit := do
  let stepRun ← seedStepRun σ
  let attempt ← appendAttempt σ stepRun.id false
  let change := { attempt with failed := true }
  match ← tryStaging (σ := σ) (fun s => do return ((), ← Backend.updateAttempt change s)) with
  | .error (.immutable record id) =>
    require (id = attempt.id) ("expected ImmutableRecord, got " ++
      shownOutcome (fun _ => "()") (.error (α := Unit) (.immutable record id)))
  | other => throw ("expected ImmutableRecord, got " ++ shownOutcome (fun _ => "()") other)

def changeHasNoEffect : CheckM σ Unit := do
  let stepRun ← seedStepRun σ
  let appended ← appendAttempt σ stepRun.id false
  let tampered := { appended with result := .obj [("kind", .str "tampered")] }
  let snapshot ← ask (Backend.openSnapshot (σ := σ))
  match ← Effect.outcome (Backend.updateAttempt (σ := σ) tampered snapshot) with
  | .ok snapshot => ask (Backend.commit (σ := σ) snapshot)
  | .error _ => ask (Backend.commit (σ := σ) snapshot)
  let attempts ← ask (Backend.attempts (σ := σ) stepRun.id)
  require (attempts = [appended])
    ("step state changed: " ++ shownList AttemptRecord.toJson attempts)

def listedAsAppended : CheckM σ Unit := do
  let stepRun ← seedStepRun σ
  let first ← appendAttempt σ stepRun.id true
  let second ← appendAttempt σ stepRun.id true
  let third ← appendAttempt σ stepRun.id false
  let attempts ← ask (Backend.attempts (σ := σ) stepRun.id)
  let ids := attempts.map (·.id)
  require (ids = [first.id, second.id, third.id])
    ("unexpected state order: " ++ shownList .int ids)

def checks : List (Check σ) := [
  ⟨"immutability", "update_step_state_fails", changeRefused σ⟩,
  ⟨"immutability", "failed_update_leaves_state_unchanged", changeHasNoEffect σ⟩,
  ⟨"immutability", "states_listed_in_append_order", listedAsAppended σ⟩]

end CallFlow.Conformance.Append
