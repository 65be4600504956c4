/-! # Failures of a store -/
namespace CallFlow

inductive StorageError
  /-- The run was changed since the caller read it. -/
  | concurrentConflict (run expectedVersion : Int)
  | runNotFound (run : Int)
  | stepRunNotFound (stepRun : Int)
  | positionNotFound (position : Int)
  | duplicateOrder (run order : Int)
  /-- The record of this kind was appended and cannot change. -/
  | immutable (record : String) (id : Int)
  | backend (message : String)
deriving DecidableEq, Repr

namespace StorageError

def message : StorageError → String
  | concurrentConflict run expectedVersion =>
    "concurrent conflict on workflow run " ++ toString run ++ ": expected version " ++
      toString expectedVersion
  | runNotFound run => "workflow run not found: " ++ toString run
  | stepRunNotFound stepRun => "step run not found: " ++ toString stepRun
  | positionNotFound position => "workflow step run not found: " ++ toString position
  | duplicateOrder run order =>
    "duplicate run_order " ++ toString order ++ " for workflow run " ++ toString run
  | immutable record id => record ++ " " ++ toString id ++ " is immutable once created"
  | backend message => "storage backend error: " ++ message

def isNotFound : StorageError → Bool
  | runNotFound _ | stepRunNotFound _ | positionNotFound _ => true
  | _ => false

end StorageError
end CallFlow
