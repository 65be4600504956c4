import CallFlow.Json.Record

/-! # Stored records

A run is one caller's way through a flow. A step run stands for one visit to a step, its
attempts are the executions of that visit, and positions put the visits of a run in order.
Every record has its written form, `toJson`, and its reader, `ofDocument?`.
-/
namespace CallFlow

structure RunRecord where
  id : Int
  /-- The tag of the configuration that the run executes. -/
  configTag : String
  state : String
  branch : String
  session : Fields
  /-- Counts the updates, from zero. -/
  version : Int
  createdAt : String
  updatedAt : String
deriving DecidableEq, Inhabited

structure NewRun where
  configTag : String
  state : String
  branch : String
deriving DecidableEq

structure StepRunRecord where
  id : Int
  run : Int
  name : String
  branch : String
  stepType : String
  /-- The arguments that the step was built with. -/
  snapshot : Json
  createdAt : String
deriving DecidableEq, Inhabited

structure NewStepRun where
  run : Int
  name : String
  branch : String
  stepType : String
  snapshot : Json
deriving DecidableEq

structure AttemptRecord where
  id : Int
  stepRun : Int
  input : Option Json
  result : Json
  failed : Bool
  retryable : Bool
  createdAt : String
deriving DecidableEq, Inhabited

structure NewAttempt where
  stepRun : Int
  input : Option Json
  result : Json
  failed : Bool
  retryable : Bool
deriving DecidableEq

structure PositionRecord where
  id : Int
  run : Int
  stepRun : Int
  order : Int
  /-- The run left its branch here after an error. -/
  branchedOnError : Bool
  createdAt : String
deriving DecidableEq, Inhabited

structure NewPosition where
  run : Int
  stepRun : Int
  order : Int
deriving DecidableEq

structure HistoryEntry where
  position : PositionRecord
  stepRun : StepRunRecord
deriving DecidableEq, Inhabited

namespace RunRecord

def memberNames : List String :=
  ["id", "workflow_config_tag", "state", "current_branch", "session", "version", "created_at",
    "updated_at"]

def toJson (r : RunRecord) : Json :=
  .obj [("created_at", .str r.createdAt), ("current_branch", .str r.branch), ("id", .int r.id),
    ("session", .ofFields r.session), ("state", .str r.state), ("updated_at", .str r.updatedAt),
    ("version", .int r.version), ("workflow_config_tag", .str r.configTag)]

def ofDocument? (d : Document) : Option RunRecord := do
  let r ← d.known? memberNames
  return {
    id := ← r.required "id" Document.int64?
    configTag := ← r.required "workflow_config_tag" Document.text?
    state := ← r.required "state" Document.text?
    branch := ← r.required "current_branch" Document.text?
    session := ← r.required "session" Document.fields?
    version := ← r.required "version" Document.int64?
    createdAt := ← r.required "created_at" Document.text?
    updatedAt := ← r.required "updated_at" Document.text? }

end RunRecord

namespace StepRunRecord

def memberNames : List String :=
  ["id", "workflow_run_id", "name", "branch", "step_type", "init_snapshot", "created_at"]

def toJson (r : StepRunRecord) : Json :=
  .obj [("branch", .str r.branch), ("created_at", .str r.createdAt), ("id", .int r.id),
    ("init_snapshot", r.snapshot), ("name", .str r.name), ("step_type", .str r.stepType),
    ("workflow_run_id", .int r.run)]

def ofDocument? (d : Document) : Option StepRunRecord := do
  let r ← d.known? memberNames
  return {
    id := ← r.required "id" Document.int64?
    run := ← r.required "workflow_run_id" Document.int64?
    name := ← r.required "name" Document.text?
    branch := ← r.required "branch" Document.text?
    stepType := ← r.required "step_type" Document.text?
    snapshot := ← r.required "init_snapshot" Document.json?
    createdAt := ← r.required "created_at" Document.text? }

end StepRunRecord

namespace AttemptRecord

def memberNames : List String :=
  ["id", "step_run_id", "input", "result", "error", "retryable", "created_at"]

def toJson (r : AttemptRecord) : Json :=
  .obj [("created_at", .str r.createdAt), ("error", .bool r.failed), ("id", .int r.id),
    ("input", r.input.getD .null), ("result", r.result), ("retryable", .bool r.retryable),
    ("step_run_id", .int r.stepRun)]

def ofDocument? (d : Document) : Option AttemptRecord := do
  let r ← d.known? memberNames
  return {
    id := ← r.required "id" Document.int64?
    stepRun := ← r.required "step_run_id" Document.int64?
    input := ← r.optional "input" Document.json?
    result := ← r.required "result" Document.json?
    failed := ← r.required "error" Document.bool?
    retryable := ← r.required "retryable" Document.bool?
    createdAt := ← r.required "created_at" Document.text? }

end AttemptRecord

namespace PositionRecord

def memberNames : List String :=
  ["id", "workflow_run_id", "step_run_id", "run_order", "branched_on_error", "created_at"]

def toJson (r : PositionRecord) : Json :=
  .obj [("branched_on_error", .bool r.branchedOnError), ("created_at", .str r.createdAt),
    ("id", .int r.id), ("run_order", .int r.order), ("step_run_id", .int r.stepRun),
    ("workflow_run_id", .int r.run)]

def ofDocument? (d : Document) : Option PositionRecord := do
  let r ← d.known? memberNames
  return {
    id := ← r.required "id" Document.int64?
    run := ← r.required "workflow_run_id" Document.int64?
    stepRun := ← r.required "step_run_id" Document.int64?
    order := ← r.required "run_order" Document.int64?
    branchedOnError := ← r.required "branched_on_error" Document.bool?
    createdAt := ← r.required "created_at" Document.text? }

end PositionRecord

namespace HistoryEntry

def toJson (e : HistoryEntry) : Json :=
  .obj [("step_run", e.stepRun.toJson), ("workflow_step_run", e.position.toJson)]

def ofDocument? (d : Document) : Option HistoryEntry := do
  let r ← d.known? ["workflow_step_run", "step_run"]
  return {
    position := ← r.required "workflow_step_run" PositionRecord.ofDocument?
    stepRun := ← r.required "step_run" StepRunRecord.ofDocument? }

end HistoryEntry
end CallFlow
