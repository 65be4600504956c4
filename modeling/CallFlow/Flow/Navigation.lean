import CallFlow.Flow.Config
import CallFlow.Flow.Error
import CallFlow.Digest.Sha256

/-! # Finding one's way in a flow

Branches and steps are looked up by name, the first of a name counting. A configuration is
known by its tag, the digest of its compact JSON text.
-/
namespace CallFlow

namespace Branch

def position? (b : Branch) (step : String) : Option Nat := b.steps.findIdx? (·.name = step)

def step? (b : Branch) (step : String) : Option StepTemplate := b.steps.find? (·.name = step)

end Branch

namespace StepTree

def firstBranch (t : StepTree) : Except ConfigError Branch :=
  match t.branches with
  | [] => .error .noBranches
  | b :: _ => .ok b

def branch (t : StepTree) (name : String) : Except ConfigError Branch :=
  match t.branches.find? (·.name = name) with
  | some b => .ok b
  | none => .error (.branchNotFound name)

def step (t : StepTree) (branch name : String) : Except ConfigError StepTemplate := do
  match (← t.branch branch).step? name with
  | some s => return s
  | none => throw (.stepNotFound branch name)

end StepTree

/-- The digest of the compact JSON text. -/
def FlowConfig.tag (c : FlowConfig) : String := Sha256.digest c.toJson.print.toUTF8.toList

end CallFlow
