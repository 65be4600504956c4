import CallFlow.Conformance.Check

/-! # What does not exist

Reading, updating or referring to a record that does not exist is refused as not found.
-/
namespace CallFlow.Conformance.Refusal
variable (σ : Type) [Backend σ]

/-- An id that no fresh store has given out. -/
def absentId : Int := 424242

def expectation (expected shown : String) : String := "expected " ++ expected ++ ", got " ++ shown

def readingRun : CheckM σ Unit := do
  match ← Effect.outcome (Backend.run (σ := σ) absentId) with
  | .error (.runNotFound id) =>
    require (id = absentId)
      (expectation "WorkflowRunNotFound(424242)" (shownOutcome shownRun (.error (.runNotFound id))))
  | other => throw (expectation "WorkflowRunNotFound(424242)" (shownOutcome shownRun other))

def readingStepRun : CheckM σ Unit := do
  match ← Effect.outcome (Backend.stepRun (σ := σ) absentId) with
  | .error (.stepRunNotFound id) =>
    require (id = absentId)
      (expectation "StepRunNotFound(424242)"
        (shownOutcome shownStepRun (.error (.stepRunNotFound id))))
  | other => throw (expectation "StepRunNotFound(424242)" (shownOutcome shownStepRun other))

def updatingRun : CheckM σ Unit := do
  let run ← seedRun
  match ← tryStaging (σ := σ) (Backend.updateRun { run with id := absentId }) with
  | .error (.runNotFound _) => return ()
  | other => throw (expectation "WorkflowRunNotFound" (shownOutcome toString other))

def stepRunOfRun : CheckM σ Unit := do
  match ← tryStaging (σ := σ) (Backend.insertStepRun (newStepRun absentId "root" "greeting")) with
  | .error (.runNotFound _) => return ()
  | other => throw (expectation "WorkflowRunNotFound" (shownOutcome shownStepRun other))

def attemptOfStepRun : CheckM σ Unit := do
  let new : NewAttempt := ⟨absentId, none, .obj [("kind", .str "success")], false, false⟩
  match ← tryStaging (σ := σ) (Backend.insertAttempt new) with
  | .error (.stepRunNotFound _) => return ()
  | other =>
    throw (expectation "StepRunNotFound" (shownOutcome (fun a => a.toJson.print) other))

def positionOfStepRun : CheckM σ Unit := do
  let run ← seedRun
  match ← tryStaging (σ := σ) (Backend.insertPosition ⟨run.id, absentId, 1⟩) with
  | .error (.stepRunNotFound _) => return ()
  | other => throw (expectation "StepRunNotFound" (shownOutcome shownPosition other))

def markingPosition : CheckM σ Unit := do
  match ← tryStaging (σ := σ) (fun s => do return ((), ← Backend.markBranched absentId s)) with
  | .error (.positionNotFound _) => return ()
  | other => throw (expectation "WorkflowStepRunNotFound" (shownOutcome (fun _ => "()") other))

def checks : List (Check σ) := [
  ⟨"error", "get_workflow_run_nonexistent", readingRun σ⟩,
  ⟨"error", "get_step_run_nonexistent", readingStepRun σ⟩,
  ⟨"error", "update_workflow_run_nonexistent", updatingRun σ⟩,
  ⟨"error", "step_run_for_missing_run_rejected", stepRunOfRun σ⟩,
  ⟨"error", "step_state_for_missing_step_run_rejected", attemptOfStepRun σ⟩,
  ⟨"error", "position_for_missing_step_run_rejected", positionOfStepRun σ⟩,
  ⟨"error", "mark_missing_position_rejected", markingPosition σ⟩]

end CallFlow.Conformance.Refusal
