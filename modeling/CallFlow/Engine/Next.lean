import CallFlow.Engine.Work

/-! # What comes next

After a step that completed comes its exit path, or else the step after the last one that
the run visited on its branch. A branch that was just switched into starts over at its first
step, unless it keeps its place.
-/
namespace CallFlow

/-- What the adapter does after a call: run or prompt for a step, or let the caller go. -/
inductive NextStep
  | step (s : BoundStep)
  | exit (e : ExitPath)

structure Outcome where
  result : StepResult
  next : NextStep

namespace Work
variable {σ : Type} [Backend σ]

/-- The name of the last step on a branch in a history. -/
def lastOn (branch : String) (history : List HistoryEntry) : Option String :=
  (history.reverse.find? (·.stepRun.branch = branch)).map (·.stepRun.name)

def lastVisited (branch : String) : WorkM σ (Option String) := do
  let e ← engine?
  return lastOn branch (← query (Backend.history e.run.record.id))

/-- The index of the step after the named one, or of the first step. -/
def indexAfter (b : Branch) : Option String → Except ConfigError Nat
  | none => .ok 0
  | some name =>
    match b.position? name with
    | some i => .ok (i + 1)
    | none => .error (.stepNotFound b.name name)

def nextOn (ctx : Context) (branch : String) (justSwitched : Bool) : WorkM σ Step := do
  let b ← configured ((← engine?).config.tree.branch branch)
  let last ← if justSwitched && b.resetOnSwitch then pure none else lastVisited branch
  let index ← configured (indexAfter b last)
  match b.steps[index]? with
  | none => throw (.unrecoverable branch (last.getD "") .branchExhausted)
  | some t => configured (Step.ofTemplate t branch ctx.registry)

/-- Fires the trigger for going on and enters a step that has no step run yet. -/
def advance (step : Step) : WorkM σ BoundStep := do
  fire .advanceStep
  enterStep step none

def leave (exit : ExitPath) : WorkM σ NextStep := do
  fire .finish
  return .exit exit

def proceed (ctx : Context) : WorkM σ NextStep := do
  let step ← currentStep
  let e ← engine?
  let template ← configured (e.config.tree.step step.step.branch step.step.name)
  match template.exitPath with
  | some exit => leave (← configured (ctx.registry.buildExitTemplate exit))
  | none =>
    let branch := e.run.record.branch
    return .step (← advance (← nextOn ctx branch (branch ≠ step.step.branch)))

/-- The exit path by which a caller leaves for a queue. -/
def queueExit (ctx : Context) (queue : Option String) : Except ConfigError ExitPath :=
  ctx.registry.buildExit ctx.settings.exitQueuePath
    (Table.empty.insert "queue" (.str (queue.getD ctx.settings.defaultQueue)))

def handleResult (ctx : Context) (result : StepResult) : WorkM σ Outcome := do
  match result with
  | .replay _ =>
    fire .replayStep
    let step ← currentStep
    return ⟨result, .step (← placeStep step.step (some step.stepRun))⟩
  | .exitQueue queue => return ⟨result, ← leave (← configured (queueExit ctx queue))⟩
  | _ => return ⟨result, ← proceed ctx⟩

end Work
end CallFlow
