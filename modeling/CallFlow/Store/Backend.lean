import CallFlow.Effect
import CallFlow.Store.Error
import CallFlow.Store.Record

/-! # What a store offers

Writes are staged on a snapshot, which is committed as a whole or aborted; queries see
committed data only. A record gets its id when it is staged, so that records of one snapshot
can refer to each other, and an id is never given twice. Updating a run is refused unless the
caller's version is the current one.
-/
namespace CallFlow

abbrev StoreM (σ α : Type) := Effect σ StorageError α

class Backend (σ : Type) where
  Snapshot : Type
  openSnapshot : StoreM σ Snapshot
  commit : Snapshot → StoreM σ Unit
  abort : Snapshot → StoreM σ Unit
  /-- A new run starts at version zero with an empty session. -/
  insertRun : NewRun → Snapshot → StoreM σ (RunRecord × Snapshot)
  /-- The record carries the version that the caller read; the answer is the new one. -/
  updateRun : RunRecord → Snapshot → StoreM σ (Int × Snapshot)
  insertStepRun : NewStepRun → Snapshot → StoreM σ (StepRunRecord × Snapshot)
  insertAttempt : NewAttempt → Snapshot → StoreM σ (AttemptRecord × Snapshot)
  /-- Attempts are append-only, so this is there to fail. -/
  updateAttempt : AttemptRecord → Snapshot → StoreM σ Snapshot
  insertPosition : NewPosition → Snapshot → StoreM σ (PositionRecord × Snapshot)
  markBranched : Int → Snapshot → StoreM σ Snapshot
  run : Int → StoreM σ RunRecord
  /-- The position of a run with the highest order. -/
  latestPosition : Int → StoreM σ (Option PositionRecord)
  /-- The positions of a run in order. -/
  positions : Int → StoreM σ (List PositionRecord)
  stepRun : Int → StoreM σ StepRunRecord
  /-- The most recent step run of a run on a branch with a name. -/
  findStepRun : Int → String → String → StoreM σ (Option StepRunRecord)
  /-- The attempts of a step run as they were appended. -/
  attempts : Int → StoreM σ (List AttemptRecord)

namespace Backend
variable {σ : Type} [Backend σ]

def joinPosition (p : PositionRecord) : StoreM σ HistoryEntry := do
  return ⟨p, ← stepRun p.stepRun⟩

def history (id : Int) : StoreM σ (List HistoryEntry) := do
  (← positions id).mapM joinPosition

end Backend
end CallFlow
