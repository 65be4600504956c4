import CallFlow.Step.Behavior
import CallFlow.Flow.Arguments

/-! # Menus

A menu offers actions under keys, and one more key that leaves the flow for a queue. No two
of its keys are equal.
-/
namespace CallFlow

structure Menu where
  prompt : String
  errorMessage : Option String
  actions : List Action
  exitKey : String
  queue : Option String
  sessionKey : String
deriving DecidableEq

namespace Menu

def typeName : String := "menu"

def defaultExitKey : String := "0"

def refuse {α : Type} (fault : ArgumentFault) : Except ConfigError α :=
  .error (.invalidArguments typeName fault)

/-- Refuses the first key that is the exit key or occurred before. -/
def checkKeys (exitKey : String) : List String → List Action → Except ConfigError Unit
  | _, [] => .ok ()
  | seen, a :: rest =>
    if a.key = exitKey then refuse (.exitKeyTaken a.key)
    else if a.key ∈ seen then refuse (.duplicateKey a.key)
    else checkKeys exitKey (a.key :: seen) rest

def build (args : StepArguments) : Except ConfigError Menu := do
  if args.actions.isEmpty then refuse .noActions
  else
    let exitKey ← Fields.optionalText args.arguments typeName "exit_queue_digit"
    let exitKey := exitKey.getD defaultExitKey
    checkKeys exitKey [] args.actions
    let prompt ← Fields.requiredText args.arguments typeName "prompt"
    let errorMessage ← Fields.optionalText args.arguments typeName "error_message"
    let queue ← Fields.optionalText args.arguments typeName "queue"
    let sessionKey ← Fields.optionalText args.arguments typeName "session_key"
    return ⟨prompt, errorMessage, args.actions, exitKey, queue, sessionKey.getD args.name⟩

/-- The keys that can be pressed, the exit key last. -/
def keys (m : Menu) : List String := m.actions.map (·.key) ++ [m.exitKey]

def press (m : Menu) (key : String) : Except StepError StepResult :=
  if key = m.exitKey then .ok (.exitQueue m.queue)
  else match m.actions.find? (·.key = key) with
    | none => .error (.user ("'" ++ key ++ "' is not a menu option"))
    | some a =>
      match a.kind with
      | .again => .ok (.replay (some m.prompt))
      | .select => .ok (.inputSuccess (.selection a.name) none)

def run (m : Menu) (ctx : StepContext) (session : Session) :
    Except StepError StepResult × Session :=
  let outcome := do
    match ← ctx.requireInput with
    | .selection key => m.press key
    | other => throw (.fatal ("menu received non-selection input " ++ other.shown))
  (outcome, session)

def saveResult (m : Menu) (_ : StepContext) (result : StepResult) (session : Session) :
    StepResult × Session :=
  match result with
  | .inputSuccess (.selection name) _ => (result, session.insert m.sessionKey (.str name))
  | _ => (result, session)

def behavior (m : Menu) : StepBehavior where
  typeName := typeName
  inputType := some (.selection m.keys)
  prompt := some m.prompt
  errorMessage := m.errorMessage
  run := m.run
  saveResult := m.saveResult

def construct (args : StepArguments) : Except ConfigError StepBehavior :=
  (build args).map behavior

end Menu
end CallFlow
