import CallFlow.Json.Record

/-! # Exit paths

How a run leaves its flow. An exit path is written as an object with an `exit_path_type`
beside the members of that type.
-/
namespace CallFlow

inductive ExitPath
  | hangup (message : Option String)
  | transferToQueue (queue : String) (message : Option String)
  /-- The leg goes on in another flow. -/
  | handoff (workflow : String)
  /-- A kind that the embedding application knows. -/
  | custom (exitType : String) (arguments : Fields)
deriving DecidableEq

namespace ExitPath

def exitType : ExitPath → String
  | hangup _ => "hangup"
  | transferToQueue .. => "transfer_to_queue"
  | handoff _ => "handoff"
  | custom exitType _ => exitType

def toJson : ExitPath → Json
  | hangup m => .obj [("exit_path_type", .str "hangup"), ("message", .text? m)]
  | transferToQueue queue m =>
    .obj [("exit_path_type", .str "transfer_to_queue"), ("message", .text? m),
      ("queue", .str queue)]
  | handoff workflow => .obj [("exit_path_type", .str "handoff"), ("workflow", .str workflow)]
  | custom exitType arguments =>
    .obj [("exit_path_type", .str "custom"), ("exit_type", .str exitType),
      ("kwargs", .ofFields arguments)]

def ofKind? (kind : String) (d : Document) : Option ExitPath :=
  match kind with
  | "hangup" => do
    let r ← d.known? ["message"]
    return .hangup (← r.optional "message" Document.text?)
  | "transfer_to_queue" => do
    let r ← d.known? ["queue", "message"]
    return .transferToQueue (← r.required "queue" Document.text?)
      (← r.optional "message" Document.text?)
  | "handoff" => do
    let r ← d.known? ["workflow"]
    return .handoff (← r.required "workflow" Document.text?)
  | "custom" => do
    let r ← d.known? ["exit_type", "kwargs"]
    return .custom (← r.required "exit_type" Document.text?)
      (← r.required "kwargs" Document.fields?)
  | _ => none

def ofDocument? (d : Document) : Option ExitPath := do
  let (kind, rest) ← d.tagged? "exit_path_type"
  ofKind? kind rest

end ExitPath
end CallFlow
