import CallFlow.Json.Record

/-! # Flow configurations

A flow is a tree of branches, each a list of steps; the first branch is where a run starts.
Every type here has its written form, `toJson`, and its reader, `ofDocument?`.
-/
namespace CallFlow

inductive ActionKind
  | select
  /-- Plays the prompt again. -/
  | again
deriving DecidableEq, Repr, Inhabited

/-- An option that a menu offers under a key. -/
structure Action where
  key : String
  name : String
  kind : ActionKind
deriving DecidableEq, Repr, Inhabited

structure ExitTemplate where
  exitType : String
  arguments : Fields
deriving DecidableEq, Inhabited

structure StepTemplate where
  name : String
  stepType : String
  arguments : Fields
  actions : List Action
  exitPath : Option ExitTemplate
  /-- The step of the same branch to go back to when this one fails. -/
  resetTarget : Option String
  /-- The branch to switch to when no further try is granted. -/
  switchTarget : Option String
  retryCount : Option UInt32
deriving DecidableEq, Inhabited

structure Branch where
  name : String
  steps : List StepTemplate
  /-- Whether a switch into this branch starts over at its first step. -/
  resetOnSwitch : Bool
deriving DecidableEq, Inhabited

structure StepTree where
  branches : List Branch
deriving DecidableEq, Inhabited

structure FlowConfig where
  name : String
  tree : StepTree
deriving DecidableEq, Inhabited

def Json.member? (name : String) : Option Json → List (String × Json)
  | some v => [(name, v)]
  | none => []

namespace ActionKind

def name : ActionKind → String
  | select => "select"
  | again => "repeat"

def ofDocument? (d : Document) : Option ActionKind :=
  match d.constant? .direct with
  | some "select" => some .select
  | some "repeat" => some .again
  | _ => none

end ActionKind

namespace Action

def toJson (a : Action) : Json :=
  .obj [("key", .str a.key), ("kind", .str a.kind.name), ("name", .str a.name)]

def ofDocument? (d : Document) : Option Action := do
  let r ← d.known? ["key", "name", "kind"]
  return {
    key := ← r.required "key" Document.text?
    name := ← r.required "name" Document.text?
    kind := ← r.orElse "kind" ActionKind.ofDocument? .select }

end Action

namespace ExitTemplate

def toJson (e : ExitTemplate) : Json :=
  .obj [("exit_path_kwargs", .ofFields e.arguments), ("exit_path_type", .str e.exitType)]

def ofDocument? (d : Document) : Option ExitTemplate := do
  let r ← d.known? ["exit_path_type", "exit_path_kwargs"]
  return {
    exitType := ← r.required "exit_path_type" Document.text?
    arguments := ← r.orElse "exit_path_kwargs" Document.fields? .empty }

end ExitTemplate

namespace StepTemplate

def memberNames : List String :=
  ["name", "step_type", "step_kwargs", "actions", "exit_path", "on_error_reset_to_step",
    "on_error_switch_to_branch", "retry_count"]

def actionsJson (t : StepTemplate) : Json := .arr (t.actions.map Action.toJson)

def retryJson (t : StepTemplate) : Option Json := t.retryCount.map fun n => .nat n.toNat

/-- Members without a value are left out, and so is an empty list of actions. -/
def toJson (t : StepTemplate) : Json :=
  .obj <|
    Json.member? "actions" (if t.actions.isEmpty then none else some t.actionsJson) ++
    Json.member? "exit_path" (t.exitPath.map ExitTemplate.toJson) ++
    [("name", .str t.name)] ++
    Json.member? "on_error_reset_to_step" (t.resetTarget.map .str) ++
    Json.member? "on_error_switch_to_branch" (t.switchTarget.map .str) ++
    Json.member? "retry_count" t.retryJson ++
    [("step_kwargs", .ofFields t.arguments), ("step_type", .str t.stepType)]

/-- The arguments that a step is built with, as its step run keeps them. -/
def snapshot (t : StepTemplate) : Json :=
  .obj [("actions", t.actionsJson), ("on_error_reset_to_step", .text? t.resetTarget),
    ("on_error_switch_to_branch", .text? t.switchTarget),
    ("retry_count", t.retryJson.getD .null), ("step_kwargs", .ofFields t.arguments)]

def ofDocument? (d : Document) : Option StepTemplate := do
  let r ← d.known? memberNames
  return {
    name := ← r.required "name" Document.text?
    stepType := ← r.required "step_type" Document.text?
    arguments := ← r.orElse "step_kwargs" Document.fields? .empty
    actions := ← r.orElse "actions" (Document.listOf? Action.ofDocument?) []
    exitPath := ← r.optionalOrMissing "exit_path" ExitTemplate.ofDocument?
    resetTarget := ← r.optionalOrMissing "on_error_reset_to_step" Document.text?
    switchTarget := ← r.optionalOrMissing "on_error_switch_to_branch" Document.text?
    retryCount := ← r.optionalOrMissing "retry_count" Document.uint32? }

end StepTemplate

namespace Branch

def toJson (b : Branch) : Json :=
  .obj [("name", .str b.name), ("reset_on_switch", .bool b.resetOnSwitch),
    ("steps", .arr (b.steps.map StepTemplate.toJson))]

def ofDocument? (d : Document) : Option Branch := do
  let r ← d.known? ["name", "steps", "reset_on_switch"]
  return {
    name := ← r.required "name" Document.text?
    steps := ← r.required "steps" (Document.listOf? StepTemplate.ofDocument?)
    resetOnSwitch := ← r.orElse "reset_on_switch" Document.bool? true }

end Branch

namespace StepTree

def toJson (t : StepTree) : Json := .obj [("branches", .arr (t.branches.map Branch.toJson))]

def ofDocument? (d : Document) : Option StepTree := do
  let r ← d.known? ["branches"]
  return { branches := ← r.required "branches" (Document.listOf? Branch.ofDocument?) }

end StepTree

namespace FlowConfig

def toJson (c : FlowConfig) : Json :=
  .obj [("name", .str c.name), ("step_tree", c.tree.toJson)]

def ofDocument? (d : Document) : Option FlowConfig := do
  let r ← d.known? ["name", "step_tree"]
  return {
    name := ← r.required "name" Document.text?
    tree := ← r.required "step_tree" StepTree.ofDocument? }

end FlowConfig
end CallFlow
