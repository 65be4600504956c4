import CallFlow.Exit.Path
import CallFlow.Flow.Arguments

/-! # Exit paths from their arguments

The constructors of the kinds of exit path that every deployment has.
-/
namespace CallFlow.ExitPath

def buildHangup (arguments : Fields) : Except ConfigError ExitPath := do
  return .hangup (← Fields.optionalText arguments "hangup" "message")

def buildTransfer (arguments : Fields) : Except ConfigError ExitPath := do
  let queue ← Fields.requiredText arguments "transfer_to_queue" "queue"
  if queue.isEmpty then throw (.invalidArguments "transfer_to_queue" .emptyQueue)
  else
    let message ← Fields.optionalText arguments "transfer_to_queue" "message"
    return .transferToQueue queue message

def buildHandoff (arguments : Fields) : Except ConfigError ExitPath := do
  return .handoff (← Fields.requiredText arguments "handoff" "workflow")

end CallFlow.ExitPath
