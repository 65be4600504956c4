import CallFlow.Flow.Error
import CallFlow.Run.Lifecycle
import CallFlow.Step.Error
import CallFlow.Store.Error

/-! # Failures of a call

What an adapter is told when a call fails. Only an unrecoverable failure is committed; after
any other the engine that made the call is given up.
-/
namespace CallFlow

inductive InitializationFault
  | unknownState (run : Int) (state : String)
  | noHistory (run : Int) (state : RunState)
  | noCurrentStep
  | noCurrentPosition
deriving DecidableEq, Repr

def InitializationFault.message : InitializationFault → String
  | unknownState run state =>
    "workflow run " ++ toString run ++ " has unknown state '" ++ state ++ "'"
  | noHistory run state =>
    "workflow run " ++ toString run ++ " has no history but is in state '" ++ state.name ++ "'"
  | noCurrentStep => "engine has no current step"
  | noCurrentPosition => "engine has no current position"

inductive StopReason
  | failed (message : String)
  | targetOffBranch (target branch message : String)
  | budgetExhausted (budget : Nat) (message : String)
  | branchExhausted
  | errorBranchExhausted (reason : StopReason) (branch : String) (exhausted : StopReason)
deriving DecidableEq, Repr

def StopReason.message : StopReason → String
  | failed message => message
  | targetOffBranch target branch message =>
    "retry target '" ++ target ++ "' is not on branch '" ++ branch ++ "': " ++ message
  | budgetExhausted budget message =>
    "retry budget of " ++ toString budget ++ " exhausted: " ++ message
  | branchExhausted => "branch exhausted without an exit path"
  | errorBranchExhausted reason branch exhausted =>
    reason.message ++ "; error branch '" ++ branch ++ "': " ++ exhausted.message

inductive EngineError
  | initialization (fault : InitializationFault)
  | invalidState (state : RunState) (trigger : Trigger)
  /-- The step engine is in the named state and cannot run a step. -/
  | stepNotReady (state : String)
  /-- The run has no step that could be run. -/
  | notRunnable (state : RunState)
  | step (e : StepError)
  | unrecoverable (branch step : String) (reason : StopReason)
  /-- Another call committed a change to the run first. -/
  | concurrentModification (run : Int)
  | config (e : ConfigError)
  | storage (e : StorageError)
deriving DecidableEq, Repr

namespace EngineError

def message : EngineError → String
  | initialization fault => "workflow engine initialization failed: " ++ fault.message
  | invalidState state trigger =>
    "invalid trigger '" ++ trigger.name ++ "' from workflow state '" ++ state.name ++ "'"
  | stepNotReady state => "step engine cannot run a step from state '" ++ state ++ "'"
  | notRunnable state => "workflow run in state '" ++ state.name ++ "' has no runnable step"
  | step e => "step failed: " ++ e.message
  | unrecoverable branch name reason =>
    "unrecoverable error at step '" ++ branch ++ "/" ++ name ++ "': " ++ reason.message
  | concurrentModification run =>
    "workflow run " ++ toString run ++ " was modified concurrently"
  | config e => e.message
  | storage e => e.message

/-- A taken order means, as a conflict does, that another writer was first. -/
def ofStorage : StorageError → EngineError
  | .concurrentConflict run _ => concurrentModification run
  | .duplicateOrder run _ => concurrentModification run
  | e => storage e

end EngineError
end CallFlow
