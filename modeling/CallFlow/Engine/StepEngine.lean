import CallFlow.Engine.Error
import CallFlow.Step.Instance
import CallFlow.Store.Backend

/-! # Running one step

The step engine holds at most one step. Placing a step records a step run for it unless it
is bound to one already; running it makes one attempt and records that, failures included.
-/
namespace CallFlow

inductive Progress
  | ready
  | complete
  | failed
deriving DecidableEq, Repr

inductive StepEngine
  | idle
  | holding (step : BoundStep) (progress : Progress)

namespace StepEngine

def stateName : StepEngine → String
  | idle => "uninitialized"
  | holding _ .ready => "initialized"
  | holding _ .complete => "step_complete"
  | holding _ .failed => "step_error"

def current? : StepEngine → Option BoundStep
  | idle => none
  | holding step _ => some step

/-- Whether the last attempt, if there is one, leaves room for another. -/
def canRetry (e : StepEngine) : Bool :=
  match e.current?.bind (·.stepRun.attempts.getLast?) with
  | some a => !(a.failed && !a.retryable)
  | none => true

variable {σ : Type} [Backend σ]

/-- Makes a step current, recording a step run for it if it has none. -/
def place (run : Int) (step : Step) (existing : Option StepRun) (snapshot : Backend.Snapshot σ) :
    StoreM σ (BoundStep × Backend.Snapshot σ) :=
  match existing with
  | some stepRun => return (⟨step, stepRun⟩, snapshot)
  | none => do
    let (record, snapshot) ← Backend.insertStepRun (step.newStepRun run) snapshot
    return (⟨step, ⟨record, []⟩⟩, snapshot)

/-- What one call of `run` leaves behind, whether it failed or not. -/
structure Ran (σ : Type) [Backend σ] where
  outcome : Except EngineError StepResult
  engine : StepEngine
  session : Session
  snapshot : Backend.Snapshot σ

def recordedResult : Except StepError StepResult → StepResult
  | .ok result => result
  | .error e => .ofError e

/-- The attempt to record for an execution: the bound input, or else the raw one. -/
def newAttempt (stepRun : Int) (raw : Option String) (x : StepBehavior.Execution) : NewAttempt where
  stepRun := stepRun
  input := (x.input.map StepInput.toJson).or (raw.map .str)
  result := (recordedResult x.outcome).toJson
  failed := match x.outcome with
    | .ok _ => false
    | .error _ => true
  retryable := match x.outcome with
    | .ok _ => false
    | .error e => e.retryable

def conclude : Except StepError StepResult → Progress × Except EngineError StepResult
  | .ok result => (.complete, .ok result)
  | .error e => (.failed, .error (.step e))

def run (engine : StepEngine) (services : Services) (raw : Option String) (session : Session)
    (snapshot : Backend.Snapshot σ) (store : σ) : Ran σ × σ :=
  match engine with
  | holding step .ready =>
    let x := step.step.behavior.execute services raw session
    let new := newAttempt step.stepRun.record.id raw x
    match (Backend.insertAttempt new snapshot).run store with
    | (.ok (attempt, snapshot), store) =>
      let (progress, outcome) := conclude x.outcome
      (⟨outcome, holding { step with stepRun := step.stepRun.push attempt } progress, x.session,
        snapshot⟩, store)
    | (.error e, store) => (⟨.error (.ofStorage e), engine, x.session, snapshot⟩, store)
  | _ => (⟨.error (.stepNotReady engine.stateName), engine, session, snapshot⟩, store)

end StepEngine
end CallFlow
