import CallFlow.Engine.Context
import CallFlow.Engine.StepEngine
import CallFlow.Run.Aggregate

/-! # Units of work

A call works on a store, one open snapshot and its engine. All its writes are staged on the
snapshot together with an update of the run, so that a call that was overtaken commits
nothing. An unrecoverable failure is committed like a success, with the run in its error state.
-/
namespace CallFlow

/-- The engine of one call: the flow, the run, its current step and its place in history. -/
structure Engine where
  config : FlowConfig
  run : Run
  stepEngine : StepEngine
  position : Option PositionRecord

structure Work (σ : Type) [Backend σ] where
  store : σ
  snapshot : Backend.Snapshot σ
  engine : Engine

abbrev WorkM (σ : Type) [Backend σ] (α : Type) := Effect (Work σ) EngineError α

namespace Work
variable {σ : Type} [Backend σ] {α : Type}

/-! ## Moves -/

def query (x : StoreM σ α) : WorkM σ α := ⟨fun w =>
  match x.run w.store with
  | (.ok a, store) => (.ok a, { w with store })
  | (.error e, store) => (.error (.ofStorage e), { w with store })⟩

def stage (x : Backend.Snapshot σ → StoreM σ (α × Backend.Snapshot σ)) : WorkM σ α := ⟨fun w =>
  match (x w.snapshot).run w.store with
  | (.ok (a, snapshot), store) => (.ok a, { w with store, snapshot })
  | (.error e, store) => (.error (.ofStorage e), { w with store })⟩

def engine? : WorkM σ Engine := ⟨fun w => (.ok w.engine, w)⟩

def setEngine (e : Engine) : WorkM σ Unit := ⟨fun w => (.ok (), { w with engine := e })⟩

def configured (x : Except ConfigError α) : WorkM σ α := Effect.ofExcept (x.mapError .config)

def fire (t : Trigger) : WorkM σ Unit := do
  let e ← engine?
  let run ← Effect.ofExcept (e.run.fire t)
  setEngine { e with run }

def currentStep : WorkM σ BoundStep := do
  match (← engine?).stepEngine.current? with
  | some step => return step
  | none => throw (.initialization .noCurrentStep)

def placeStep (step : Step) (existing : Option StepRun) : WorkM σ BoundStep := do
  let e ← engine?
  let bound ← stage (StepEngine.place e.run.record.id step existing)
  setEngine { e with stepEngine := .holding bound .ready }
  return bound

/-- Makes a step current and appends a position that points at it. -/
def enterStep (step : Step) (existing : Option StepRun) : WorkM σ BoundStep := do
  let bound ← placeStep step existing
  let e ← engine?
  let order := (e.position.map (·.order)).getD 0 + 1
  let position ← stage (Backend.insertPosition ⟨e.run.record.id, bound.stepRun.record.id, order⟩)
  setEngine { e with position := some position }
  return bound

/-- Executes the current step once; a failure of the step itself is an answer here. -/
def attempt (ctx : Context) (raw : Option String) : WorkM σ (Except StepError StepResult) :=
  ⟨fun w =>
    let (ran, store) :=
      w.engine.stepEngine.run ctx.services raw w.engine.run.record.session w.snapshot w.store
    let engine := { w.engine with
      stepEngine := ran.engine
      run := w.engine.run.withSession ran.session }
    let w : Work σ := ⟨store, ran.snapshot, engine⟩
    match ran.outcome with
    | .ok result => (.ok (.ok result), w)
    | .error (.step e) => (.ok (.error e), w)
    | .error e => (.error e, w)⟩

/-! ## Settling -/

/-- Stages the run with its new state and takes over its new version. -/
def save : WorkM σ Unit := do
  let e ← engine?
  let version ← stage (Backend.updateRun e.run.toRecord)
  setEngine { e with run := e.run.atVersion version }

def commit : WorkM σ Unit := ⟨fun w => (query (Backend.commit w.snapshot)).run w⟩

def abort : WorkM σ Unit := ⟨fun w => (query (Backend.abort w.snapshot)).run w⟩

/-- Puts a run that is given up into its error state, unless it is there already. -/
def registerStop : WorkM σ Unit := do
  if (← engine?).run.state ∈ Trigger.registerError.sources then fire .registerError

/-- Commits a success and an unrecoverable failure; aborts on any other failure. -/
def settle : Except EngineError α → WorkM σ α
  | .ok value => do
    save
    commit
    return value
  | .error (.unrecoverable branch step reason) => do
    registerStop
    save
    commit
    throw (.unrecoverable branch step reason)
  | .error e => do
    abort
    throw e

def settled (body : WorkM σ α) : WorkM σ α := do
  settle (← Effect.outcome body)

/-- Runs one unit of work on a snapshot of its own. -/
def run (body : WorkM σ α) (engine : Engine) (store : σ) : (Except EngineError α × Engine) × σ :=
  match (Backend.openSnapshot (σ := σ)).run store with
  | (.error e, store) => ((.error (.ofStorage e), engine), store)
  | (.ok snapshot, store) =>
    let (outcome, w) := (settled body).run ⟨store, snapshot, engine⟩
    ((outcome, w.engine), w.store)

end Work
end CallFlow
