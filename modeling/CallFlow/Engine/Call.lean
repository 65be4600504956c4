import CallFlow.Engine.Recovery

/-! # Calls

An adapter opens an engine for every callback, prepares it, and lets it run the current
step once with what the caller entered. Nothing is kept between callbacks: the engine's
place is read back from the store.
-/
namespace CallFlow

namespace Work
variable {σ : Type} [Backend σ]

/-- Prompts for input before an input step is executed. -/
def askForInput (step : BoundStep) : WorkM σ Outcome := do
  fire .requestUserInput
  return ⟨.success step.step.behavior.prompt, .step step⟩

def executeStep (ctx : Context) (raw : Option String) : WorkM σ Outcome := do
  match ← attempt ctx raw with
  | .ok result => handleResult ctx result
  | .error e => handleError ctx e

def takeUp (isInput : Bool) : WorkM σ Unit := do
  match (← engine?).run.state with
  | .initialized => fire .start
  | .stepInProgress => return ()
  | .requestingUserInput => if isInput then return () else throw (.notRunnable .requestingUserInput)
  | state => throw (.notRunnable state)

/-- Runs the current step once. An input step is prompted for first. -/
def callStep (ctx : Context) (raw : Option String) : WorkM σ Outcome := do
  let step ← currentStep
  takeUp step.step.isInput
  if step.step.isInput then
    if (← engine?).run.state = .requestingUserInput then
      fire .processingUserInput
      executeStep ctx raw
    else askForInput step
  else executeStep ctx raw

def enterFirst (ctx : Context) : WorkM σ Unit := do
  let e ← engine?
  let branch ← configured (e.config.tree.branch e.run.record.branch)
  match branch.steps with
  | [] => throw (.config (.emptyBranch branch.name))
  | template :: _ =>
    let step ← configured (Step.ofTemplate template branch.name ctx.registry)
    let _ ← enterStep step none
    fire .initializeFirstStep

end Work

namespace Engine
variable {σ : Type} [Backend σ]

def create (ctx : Context) (run : Int) : Effect σ EngineError Engine := do
  let run ← Run.load run
  let config ← Effect.ofExcept ((ctx.flows run.record.configTag).mapError .config)
  return ⟨config, run, .idle, none⟩

/-- Reads the current step back from the history; nothing is written. -/
def rehydrate (ctx : Context) (e : Engine) (position : PositionRecord) :
    Effect σ EngineError Engine := do
  let record ← Effect.mapError .ofStorage (Backend.stepRun (σ := σ) position.stepRun)
  let attempts ← Effect.mapError .ofStorage (Backend.attempts (σ := σ) record.id)
  let template ← Effect.ofExcept ((e.config.tree.step record.branch record.name).mapError .config)
  let step ← Effect.ofExcept
    ((Step.ofTemplate template record.branch ctx.registry).mapError .config)
  let snapshot ← Effect.mapError .ofStorage (Backend.openSnapshot (σ := σ))
  let (bound, snapshot) ← Effect.mapError .ofStorage
    (StepEngine.place (σ := σ) e.run.record.id step (some ⟨record, attempts⟩) snapshot)
  Effect.mapError .ofStorage (Backend.abort (σ := σ) snapshot)
  return { e with stepEngine := .holding bound .ready, position := some position }

/-- Places the engine at the run's current step, or at the first step of a fresh run. -/
def prepare (ctx : Context) (e : Engine) : Effect σ EngineError Engine := do
  match ← Effect.mapError .ofStorage (Backend.latestPosition (σ := σ) e.run.record.id) with
  | some position => rehydrate ctx e position
  | none =>
    if e.run.state = .uninitialized then
      ⟨fun store =>
        match Work.run (Work.enterFirst ctx) e store with
        | ((.ok (), e), store) => (.ok e, store)
        | ((.error failure, _), store) => (.error failure, store)⟩
    else throw (.initialization (.noHistory e.run.record.id e.run.state))

def runStep (ctx : Context) (e : Engine) (raw : Option String) (store : σ) :
    (Except EngineError Outcome × Engine) × σ :=
  Work.run (Work.callStep ctx raw) e store

end Engine

def createRun {σ : Type} [Backend σ] (ctx : Context) (tag : String) :
    Effect σ EngineError Int := do
  let config ← Effect.ofExcept ((ctx.flows tag).mapError .config)
  let branch ← Effect.ofExcept (config.tree.firstBranch.mapError .config)
  Effect.mapError .ofStorage do
    let snapshot ← Backend.openSnapshot (σ := σ)
    let (run, snapshot) ←
      Backend.insertRun (σ := σ) ⟨tag, RunState.uninitialized.name, branch.name⟩ snapshot
    Backend.commit (σ := σ) snapshot
    return run.id

end CallFlow
