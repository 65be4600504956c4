import CallFlow.Conformance.Suite
import CallFlow.Except
import CallFlow.Engine.History
import CallFlow.Rehearsal.Faults
import CallFlow.Rehearsal.Kinds
import CallFlow.Proofs.Store.Tables
import CallFlow.Proofs.Store.Sound
import CallFlow.Proofs.Store.Written
import CallFlow.Proofs.Store.Admitted
import CallFlow.Proofs.Store.History
import CallFlow.Proofs.Store.Change
import CallFlow.Proofs.Json.Reading
import CallFlow.Proofs.Json.RoundTrip
import CallFlow.Proofs.Text.Trimming
import CallFlow.Proofs.Text.Numeral
import CallFlow.Proofs.Input.Grammar
import CallFlow.Proofs.Input.Terminator
import CallFlow.Proofs.Flow.Valid
import CallFlow.Proofs.Flow.Arguments
import CallFlow.Proofs.Step.Execution
import CallFlow.Proofs.Step.Menu
import CallFlow.Proofs.Step.Question
import CallFlow.Proofs.Flow.Builtins
import CallFlow.Proofs.Flow.Defects
import CallFlow.Proofs.Flow.Published
import CallFlow.Proofs.Flow.Publishing
import CallFlow.Proofs.Run.History
import CallFlow.Proofs.Run.Visits
import CallFlow.Proofs.Run.Course
import CallFlow.Proofs.Run.LastVisit
import CallFlow.Proofs.Run.Creation
import CallFlow.Proofs.Engine.Staging
import CallFlow.Proofs.Engine.Moves
import CallFlow.Proofs.Engine.Seated
import CallFlow.Proofs.Engine.Turn
import CallFlow.Proofs.Engine.Ways
import CallFlow.Proofs.Engine.Ending
import CallFlow.Proofs.Engine.Calls
import CallFlow.Proofs.Engine.Opening
import CallFlow.Proofs.Engine.Raced
import CallFlow.Proofs.World.Basic
import CallFlow.Proofs.World.Call
import CallFlow.Proofs.World.Sound
import CallFlow.Proofs.World.Invariant
import CallFlow.Proofs.World.Deployed
import CallFlow.Proofs.World.History
import CallFlow.Proofs.World.Overlap
import CallFlow.Proofs.World.Reopening
import CallFlow.Proofs.World.Running
import CallFlow.Proofs.World.Trail
import CallFlow.Proofs.World.Budget
import CallFlow.Proofs.World.Exhaustion
import CallFlow.Proofs.World.Jumps
import CallFlow.Proofs.World.Engines
import CallFlow.Proofs.World.Terminal
import CallFlow.Proofs.World.Atomicity
import CallFlow.Proofs.World.ExitKey
import CallFlow.Proofs.World.Switching
import CallFlow.Proofs.World.CurrentStep
import CallFlow.Proofs.World.Advancing
import CallFlow.Proofs.World.Lingering
import CallFlow.Proofs.World.Retrying
import CallFlow.Proofs.World.Returning
import CallFlow.Proofs.World.Stopping
import CallFlow.Proofs.World.Discretion
import CallFlow.Proofs.World.Log
import CallFlow.Proofs.World.Prompting
import CallFlow.Proofs.World.Tries
import CallFlow.Proofs.World.Faithful
import CallFlow.Proofs.World.Raced
import CallFlow.Proofs.Legs.Renaming
import CallFlow.Proofs.Legs.Write
import CallFlow.Proofs.Legs.Mirror
import CallFlow.Proofs.Legs.Work
import CallFlow.Proofs.Legs.Follow
import CallFlow.Proofs.Legs.Call
import CallFlow.Proofs.Legs.Switchboard
import CallFlow.Proofs.Legs.Isolation
import CallFlow.Proofs.Shared.Basic
import CallFlow.Proofs.Shared.Sound
import CallFlow.Proofs.Shared.Versions
import CallFlow.Proofs.Shared.Durability
import CallFlow.Proofs.Shared.Order
import CallFlow.Proofs.Shared.References
import CallFlow.Proofs.Shared.Origin
import CallFlow.Proofs.Shared.Belonging
import CallFlow.Proofs.Shared.Updating
import CallFlow.Proofs.Shared.Attempts
import CallFlow.Proofs.Shared.Recording
