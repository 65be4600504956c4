import CallFlow.Step.Error

/-! # Results of a step

What an execution of a step comes to. It is written as an object with a `kind` beside the
members of that kind.
-/
namespace CallFlow

inductive StepResult
  /-- The step completed; the message is for the caller. -/
  | success (message : Option String)
  /-- The caller's input was bound and accepted. -/
  | inputSuccess (input : StepInput) (message : Option String)
  /-- The caller asked to hear the prompt again. -/
  | replay (message : Option String)
  /-- The caller asked to leave the flow for a queue. -/
  | exitQueue (queue : Option String)
  | error (message : String) (retryable : Bool) (resetStep : Option String)
deriving DecidableEq, Repr, Inhabited

namespace StepResult

def saying (message : String) : StepResult := .success (some message)

def isError : StepResult → Bool
  | error .. => true
  | _ => false

def isRetryable : StepResult → Bool
  | error _ retryable _ => retryable
  | _ => false

def message : StepResult → Option String
  | success m | inputSuccess _ m | replay m => m
  | error m _ _ => some m
  | exitQueue _ => none

def ofError (e : StepError) : StepResult := .error e.message e.retryable e.resetStep

def toJson : StepResult → Json
  | success m => .obj [("kind", .str "success"), ("message", .text? m)]
  | inputSuccess input m =>
    .obj [("input", input.toJson), ("kind", .str "input_success"), ("message", .text? m)]
  | replay m => .obj [("kind", .str "replay"), ("message", .text? m)]
  | exitQueue queue => .obj [("kind", .str "exit_queue"), ("queue", .text? queue)]
  | error m retryable resetStep =>
    .obj [("kind", .str "error"), ("message", .str m), ("reset_step", .text? resetStep),
      ("retryable", .bool retryable)]

def ofKind? (kind : String) (d : Document) : Option StepResult :=
  match kind with
  | "success" => do
    let r ← d.known? ["message"]
    return .success (← r.optional "message" Document.text?)
  | "input_success" => do
    let r ← d.known? ["input", "message"]
    return .inputSuccess (← r.required "input" (StepInput.ofDocument? .held))
      (← r.optional "message" Document.text?)
  | "replay" => do
    let r ← d.known? ["message"]
    return .replay (← r.optional "message" Document.text?)
  | "exit_queue" => do
    let r ← d.known? ["queue"]
    return .exitQueue (← r.optional "queue" Document.text?)
  | "error" => do
    let r ← d.known? ["message", "retryable", "reset_step"]
    return .error (← r.required "message" Document.text?)
      (← r.required "retryable" Document.bool?) (← r.optional "reset_step" Document.text?)
  | _ => none

def ofDocument? (d : Document) : Option StepResult := do
  let (kind, rest) ← d.tagged? "kind"
  ofKind? kind rest

end StepResult
end CallFlow
