import CallFlow.Step.Result
import CallFlow.Flow.Error
import CallFlow.Flow.Config

/-! # What a step does

A kind of step is a value of `StepBehavior`: what it asks for, and how it turns bound input
and the session into a result. `StepBehavior.execute` is one execution: bind, run, and let
the step save a successful result.
-/
namespace CallFlow

/-- The facts that a run carries from step to step. -/
abbrev Session := Fields

/-- The collaborators that steps may call on, by name, each with the data it answers from. -/
abbrev Services := Table String Json

structure StepContext where
  input : Option StepInput
  services : Services

namespace StepContext

def service (ctx : StepContext) (name : String) : Except StepError Json :=
  match ctx.services.get? name with
  | some data => .ok data
  | none => .error (.fatal ("service " ++ name ++ " is not registered"))

def requireInput (ctx : StepContext) : Except StepError StepInput :=
  match ctx.input with
  | some input => .ok input
  | none => .error (.user BindError.missing.message)

end StepContext

structure StepBehavior where
  /-- The kind under which the step is recorded. -/
  typeName : String
  /-- An input step is one that asks for something. -/
  inputType : Option InputType
  prompt : Option String
  /-- What a caller hears when this step is tried again. -/
  errorMessage : Option String
  run : StepContext → Session → Except StepError StepResult × Session
  /-- What becomes of a successful result, and what the session keeps of it. -/
  saveResult : StepContext → StepResult → Session → StepResult × Session

namespace StepBehavior

def keepNothing (_ : StepContext) (result : StepResult) (session : Session) :
    StepResult × Session := (result, session)

/-- An execution: the input if one was bound, how it ended and what the session then holds. -/
structure Execution where
  input : Option StepInput
  outcome : Except StepError StepResult
  session : Session

/-- Runs a step on bound input. A failure reported as a result counts as a failure. -/
def perform (b : StepBehavior) (ctx : StepContext) (session : Session) : Execution :=
  match b.run ctx session with
  | (.ok (.error message retryable resetStep), session) =>
    ⟨ctx.input, .error ⟨message, retryable, resetStep, false⟩, session⟩
  | (.ok result, session) =>
    let (result, session) := b.saveResult ctx result session
    ⟨ctx.input, .ok result, session⟩
  | (.error e, session) => ⟨ctx.input, .error e, session⟩

def execute (b : StepBehavior) (services : Services) (raw : Option String) (session : Session) :
    Execution :=
  match b.inputType with
  | none => b.perform ⟨none, services⟩ session
  | some type =>
    match type.bind raw with
    | .ok input => b.perform ⟨some input, services⟩ session
    | .error e => ⟨none, .error (.ofBindError e), session⟩

end StepBehavior

structure StepArguments where
  name : String
  branch : String
  arguments : Fields
  actions : List Action

end CallFlow
