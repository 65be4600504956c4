/-! # The lifecycle of a run

Seven states and eleven triggers. A trigger has a set of source states and one destination;
fired from any other state it is refused.
-/
namespace CallFlow

inductive RunState
  | uninitialized
  | initialized
  | stepInProgress
  | requestingUserInput
  | processingInput
  | error
  | finished
deriving DecidableEq, Repr, Inhabited

namespace RunState

def name : RunState → String
  | uninitialized => "uninitialized"
  | initialized => "initialized"
  | stepInProgress => "step_in_progress"
  | requestingUserInput => "requesting_user_input"
  | processingInput => "processing_input"
  | error => "error"
  | finished => "finished"

def all : List RunState :=
  [uninitialized, initialized, stepInProgress, requestingUserInput, processingInput, error,
    finished]

def ofName? (name : String) : Option RunState := all.find? (·.name = name)

def isTerminal (s : RunState) : Bool := s = finished

theorem ofName?_name (s : RunState) : ofName? s.name = some s := by
  cases s <;> rfl

end RunState

inductive Trigger
  | initializeFirstStep
  | start
  | advanceStep
  | requestUserInput
  | processingUserInput
  | replayStep
  | finish
  | registerError
  | retryStep
  | retryInputStep
  | unregisterError
deriving DecidableEq, Repr, Inhabited

namespace Trigger
open RunState

def name : Trigger → String
  | initializeFirstStep => "initialize_first_step"
  | start => "start"
  | advanceStep => "advance_step"
  | requestUserInput => "request_user_input"
  | processingUserInput => "processing_user_input"
  | replayStep => "replay_step"
  | finish => "finish"
  | registerError => "register_error"
  | retryStep => "retry_step"
  | retryInputStep => "retry_input_step"
  | unregisterError => "unregister_error"

def all : List Trigger :=
  [initializeFirstStep, start, advanceStep, requestUserInput, processingUserInput, replayStep,
    finish, registerError, retryStep, retryInputStep, unregisterError]

def ofName? (name : String) : Option Trigger := all.find? (·.name = name)

def sources : Trigger → List RunState
  | initializeFirstStep => [uninitialized]
  | start => [initialized]
  | advanceStep => [initialized, stepInProgress, processingInput]
  | requestUserInput => [stepInProgress, processingInput]
  | processingUserInput => [requestingUserInput]
  | replayStep => [processingInput]
  | finish => [stepInProgress, processingInput]
  | registerError => [stepInProgress, processingInput]
  | retryStep => [error]
  | retryInputStep => [error]
  | unregisterError => [error]

def destination : Trigger → RunState
  | initializeFirstStep => initialized
  | start => stepInProgress
  | advanceStep => stepInProgress
  | requestUserInput => requestingUserInput
  | processingUserInput => processingInput
  | replayStep => requestingUserInput
  | finish => finished
  | registerError => error
  | retryStep => stepInProgress
  | retryInputStep => requestingUserInput
  | unregisterError => stepInProgress

/-- The state after a trigger, when the trigger is allowed. -/
def fire? (t : Trigger) (s : RunState) : Option RunState :=
  if s ∈ t.sources then some t.destination else none

end Trigger
end CallFlow
