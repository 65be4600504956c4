import CallFlow.Step.Behavior
import CallFlow.Flow.Arguments

/-! # Message steps

A message step says its text, and records a fact in the session if it has a key for one.
-/
namespace CallFlow

structure MessageStep where
  text : String
  sessionKey : Option String
  sessionValue : Json
deriving DecidableEq

namespace MessageStep

def typeName : String := "message"

def build (args : StepArguments) : Except ConfigError MessageStep := do
  let text ← Fields.requiredText args.arguments typeName "text"
  let sessionKey ← Fields.optionalText args.arguments typeName "session_key"
  return ⟨text, sessionKey, (args.arguments.get? "session_value").getD (.bool true)⟩

def run (m : MessageStep) (_ : StepContext) (session : Session) :
    Except StepError StepResult × Session :=
  (.ok (.saying m.text), m.sessionKey.elim session fun key => session.insert key m.sessionValue)

def behavior (m : MessageStep) : StepBehavior where
  typeName := typeName
  inputType := none
  prompt := none
  errorMessage := none
  run := m.run
  saveResult := StepBehavior.keepNothing

def construct (args : StepArguments) : Except ConfigError StepBehavior :=
  (build args).map behavior

end MessageStep
end CallFlow
