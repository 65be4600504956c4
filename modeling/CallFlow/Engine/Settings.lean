import CallFlow.Json.Record

/-! # Settings of a deployment -/
namespace CallFlow

structure Settings where
  /-- The budget of a step whose template sets none. -/
  defaultRetryCount : UInt32
  /-- The kind of exit path by which callers leave for a queue. -/
  exitQueuePath : String
  /-- The queue when the step that was left names none. -/
  defaultQueue : String
  /-- What a caller hears after an internal failure of a step without a text of its own. -/
  retryMessage : String
deriving DecidableEq, Repr

namespace Settings

def standard : Settings where
  defaultRetryCount := 3
  exitQueuePath := "transfer_to_queue"
  defaultQueue := "default"
  retryMessage := "Sorry, something went wrong. Please try again."

instance : Inhabited Settings := ⟨standard⟩

def memberNames : List String :=
  ["default_retry_count", "exit_queue_exit_path", "exit_queue_default_queue", "retry_message"]

def toJson (s : Settings) : Json :=
  .obj [("default_retry_count", .nat s.defaultRetryCount.toNat),
    ("exit_queue_default_queue", .str s.defaultQueue),
    ("exit_queue_exit_path", .str s.exitQueuePath), ("retry_message", .str s.retryMessage)]

/-- Missing members keep their standard values. -/
def ofDocument? (d : Document) : Option Settings := do
  let r ← d.known? memberNames
  return {
    defaultRetryCount :=
      ← r.orElse "default_retry_count" Document.uint32? standard.defaultRetryCount
    exitQueuePath := ← r.orElse "exit_queue_exit_path" Document.text? standard.exitQueuePath
    defaultQueue := ← r.orElse "exit_queue_default_queue" Document.text? standard.defaultQueue
    retryMessage := ← r.orElse "retry_message" Document.text? standard.retryMessage }

end Settings
end CallFlow
