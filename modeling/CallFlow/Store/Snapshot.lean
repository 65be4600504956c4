import CallFlow.Store.Record

/-! # Staged writes

A snapshot is the list of its writes in the order in which they were staged. What it knows of
a record is read off the writes.
-/
namespace CallFlow

inductive Write
  | insertRun (r : RunRecord)
  /-- Carries the version that the run has after the update. -/
  | updateRun (r : RunRecord)
  | insertStepRun (s : StepRunRecord)
  | insertAttempt (a : AttemptRecord)
  | insertPosition (p : PositionRecord)
  | markBranched (position : Int)
deriving DecidableEq

structure Snapshot where
  writes : List Write
deriving DecidableEq

def Write.version? (id : Int) : Write → Option Int
  | .insertRun r | .updateRun r => if r.id = id then some r.version else none
  | _ => none

namespace Snapshot

def empty : Snapshot := ⟨[]⟩

def stage (s : Snapshot) (w : Write) : Snapshot := ⟨s.writes ++ [w]⟩

def version? (s : Snapshot) (id : Int) : Option Int := s.writes.reverse.findSome? (·.version? id)

def hasStepRun (s : Snapshot) (id : Int) : Bool :=
  s.writes.any fun | .insertStepRun r => r.id = id | _ => false

def hasPosition (s : Snapshot) (id : Int) : Bool :=
  s.writes.any fun | .insertPosition p => p.id = id | _ => false

def hasOrder (s : Snapshot) (run order : Int) : Bool :=
  s.writes.any fun | .insertPosition p => p.run = run && p.order = order | _ => false

end Snapshot
end CallFlow
