import CallFlow.Engine.Next

/-! # Recovering from a failed step

A retryable failure goes back to its target, the failing step itself by default, while the
attempts already made on the target are within its budget. When no retry is granted the run
switches to the step's error branch if that has a step left to run, and is given up if not.
-/
namespace CallFlow

/-- The step to retry, with its step run if it has been visited. -/
structure RetryTarget where
  step : Step
  stepRun : Option StepRun

namespace Work
variable {σ : Type} [Backend σ]

def targetName (step : Step) (error : StepError) : String :=
  (error.resetStep.or step.resetTarget).getD step.name

def retryMessage (ctx : Context) (step : Step) (error : StepError) : String :=
  match step.behavior.errorMessage with
  | some message => message
  | none => if error.userFacing then error.message else ctx.settings.retryMessage

/-- Switches to the failing step's error branch, or gives the run up. Nothing changes unless
the error branch has a step left to run. -/
def switchOrStop (ctx : Context) (step : Step) (reason : StopReason) : WorkM σ Outcome := do
  match step.switchTarget with
  | none => throw (.unrecoverable step.branch step.name reason)
  | some branch =>
    match ← Effect.outcome (nextOn ctx branch (branch ≠ step.branch)) with
    | .error (.unrecoverable _ _ exhausted) =>
      throw (.unrecoverable step.branch step.name (.errorBranchExhausted reason branch exhausted))
    | .error e => throw e
    | .ok next =>
      match (← engine?).position with
      | none => throw (.initialization .noCurrentPosition)
      | some position =>
        stage fun snapshot => do return ((), ← Backend.markBranched position.id snapshot)
        let e ← engine?
        setEngine { e with
          position := some { position with branchedOnError := true }
          run := e.run.onBranch branch }
        fire .unregisterError
        return ⟨.success none, .step (← advance next)⟩

def otherTarget (ctx : Context) (step : Step) (name : String) : WorkM σ (Option RetryTarget) := do
  let e ← engine?
  let branch ← configured (e.config.tree.branch step.branch)
  match branch.step? name with
  | none => return none
  | some template =>
    let target ← configured (Step.ofTemplate template step.branch ctx.registry)
    match ← query (Backend.findStepRun e.run.record.id step.branch name) with
    | none => return some ⟨target, none⟩
    | some record =>
      let attempts ← query (Backend.attempts record.id)
      return some ⟨target, some ⟨record, attempts⟩⟩

/-- The attempts that the target had before this failure. -/
def priorAttempts (target : RetryTarget) (retryingSelf : Bool) : Nat :=
  let count := (target.stepRun.map StepRun.runCount).getD 0
  if retryingSelf then count - 1 else count

def retry (ctx : Context) (step : Step) (error : StepError) (target : RetryTarget)
    (retryingSelf : Bool) : WorkM σ Outcome := do
  let budget := ctx.budget target.step
  if priorAttempts target retryingSelf ≥ budget then
    switchOrStop ctx step (.budgetExhausted budget error.message)
  else
    fire (if target.step.isInput then .retryInputStep else .retryStep)
    let next ←
      if retryingSelf then placeStep target.step target.stepRun
      else enterStep target.step target.stepRun
    return ⟨.error (retryMessage ctx step error) true error.resetStep, .step next⟩

def handleError (ctx : Context) (error : StepError) : WorkM σ Outcome := do
  let current ← currentStep
  let step := current.step
  fire .registerError
  if !error.retryable then switchOrStop ctx step (.failed error.message)
  else
    let name := targetName step error
    if name = step.name then retry ctx step error ⟨step, some current.stepRun⟩ true
    else match ← otherTarget ctx step name with
      | none => switchOrStop ctx step (.targetOffBranch name step.branch error.message)
      | some target => retry ctx step error target false

end Work
end CallFlow
