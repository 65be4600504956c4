import CallFlow.Input.Type

/-! # Failures of a step

A retryable failure is prompted again while the step's budget lasts; `resetStep` names the
step of the same branch to go back to. Only a message meant for callers is ever read to them.
-/
namespace CallFlow

structure StepError where
  message : String
  retryable : Bool
  resetStep : Option String
  userFacing : Bool
deriving DecidableEq, Repr

namespace StepError

/-- A failure caused by what the caller entered. -/
def user (message : String) : StepError := ⟨message, true, none, true⟩

/-- A passing internal failure. -/
def internal (message : String) : StepError := ⟨message, true, none, false⟩

/-- A failure that another try cannot mend. -/
def fatal (message : String) : StepError := ⟨message, false, none, false⟩

def withReset (e : StepError) (step : String) : StepError := { e with resetStep := some step }

def ofBindError (e : BindError) : StepError := user e.message

end StepError
end CallFlow
