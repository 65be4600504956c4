import CallFlow.Flow.Registry
import CallFlow.Flow.Navigation

/-! # Validation of a flow

Before a flow is published, its names must be unique, no branch may be empty, every kind
must accept its arguments, and every reference must lead somewhere.
-/
namespace CallFlow

/-- Refuses the first branch whose name occurred before or that has no steps. -/
def checkBranches : List String → List Branch → Except ConfigError Unit
  | _, [] => .ok ()
  | seen, b :: rest =>
    if b.name ∈ seen then .error (.duplicateBranch b.name)
    else if b.steps.isEmpty then .error (.emptyBranch b.name)
    else checkBranches (b.name :: seen) rest

/-- Refuses the first step whose name occurred before on its branch. -/
def checkStepNames (branch : String) : List String → List StepTemplate → Except ConfigError Unit
  | _, [] => .ok ()
  | seen, t :: rest =>
    if t.name ∈ seen then .error (.duplicateStep branch t.name)
    else checkStepNames branch (t.name :: seen) rest

/-- A reference that leads to none of the names. -/
def danglingTarget? (target : Option String) (names : List String) : Option String :=
  target.filter fun name => !names.contains name

namespace StepTree

def checkStep (t : StepTree) (registry : Registry) (b : Branch) (s : StepTemplate) :
    Except ConfigError Unit := do
  let _ ← registry.construct s b.name
  let _ ← s.exitPath.mapM registry.buildExitTemplate
  match danglingTarget? s.switchTarget (t.branches.map (·.name)) with
  | some target => throw (.unknownSwitchBranch b.name s.name target)
  | none =>
    match danglingTarget? s.resetTarget (b.steps.map (·.name)) with
    | some target => throw (.unknownResetStep b.name s.name target)
    | none => return ()

def checkBranch (t : StepTree) (registry : Registry) (b : Branch) : Except ConfigError Unit := do
  checkStepNames b.name [] b.steps
  b.steps.forM (t.checkStep registry b)

def validate (t : StepTree) (registry : Registry) : Except ConfigError Unit := do
  if t.branches.isEmpty then throw .noBranches
  else
    checkBranches [] t.branches
    t.branches.forM (t.checkBranch registry)

end StepTree
end CallFlow
