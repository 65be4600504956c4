import CallFlow.Json.Printer
import CallFlow.Store.Backend

/-! # Checks of a store

A check works on a fresh store and fails with a reason. Fixtures and the texts that show what
a store answered stand here; the checks themselves are grouped by the promise that they test.
-/
namespace CallFlow.Conformance

abbrev CheckM (σ : Type) := Effect σ String

structure Check (σ : Type) where
  group : String
  name : String
  body : CheckM σ Unit

variable {σ : Type} [Backend σ] {α : Type}

def ask (x : StoreM σ α) : CheckM σ α := x.mapError StorageError.message

def require (condition : Bool) (reason : String) : CheckM σ Unit :=
  if condition then pure () else throw reason

def expectSome (x : Option α) (reason : String) : CheckM σ α :=
  match x with
  | some a => pure a
  | none => throw reason

/-! ## What a store answered -/

def shownOutcome (shown : α → String) : Except StorageError α → String
  | .ok a => "ok(" ++ shown a ++ ")"
  | .error e => "error(" ++ e.message ++ ")"

def shownRun (r : RunRecord) : String := r.toJson.print

def shownStepRun (r : StepRunRecord) : String := r.toJson.print

def shownPosition (p : PositionRecord) : String := p.toJson.print

def shownList (toJson : α → Json) (items : List α) : String := (Json.arr (items.map toJson)).print

/-! ## Fixtures -/

def newRun : NewRun := ⟨"test-config", "uninitialized", "root"⟩

def newStepRun (run : Int) (branch name : String) : NewStepRun :=
  ⟨run, name, branch, "message", .obj [("text", .str "hello")]⟩

def seedRun : CheckM σ RunRecord := ask do
  let snapshot ← Backend.openSnapshot (σ := σ)
  let (run, snapshot) ← Backend.insertRun (σ := σ) newRun snapshot
  Backend.commit (σ := σ) snapshot
  return run

def seedPosition (run : Int) (branch name : String) (order : Int) : CheckM σ StepRunRecord :=
  ask do
    let snapshot ← Backend.openSnapshot (σ := σ)
    let (stepRun, snapshot) ← Backend.insertStepRun (σ := σ) (newStepRun run branch name) snapshot
    let (_, snapshot) ← Backend.insertPosition (σ := σ) ⟨run, stepRun.id, order⟩ snapshot
    Backend.commit (σ := σ) snapshot
    return stepRun

def tryStaging (stage : Backend.Snapshot σ → StoreM σ (α × Backend.Snapshot σ)) :
    CheckM σ (Except StorageError α) := ask do
  let snapshot ← Backend.openSnapshot (σ := σ)
  match ← Effect.outcome (stage snapshot) with
  | .ok (a, snapshot) =>
    Backend.abort (σ := σ) snapshot
    return .ok a
  | .error e =>
    Backend.abort (σ := σ) snapshot
    return .error e

def committed (stage : Backend.Snapshot σ → StoreM σ (α × Backend.Snapshot σ)) : CheckM σ α :=
  ask do
    let (a, snapshot) ← stage (← Backend.openSnapshot (σ := σ))
    Backend.commit (σ := σ) snapshot
    return a

end CallFlow.Conformance
