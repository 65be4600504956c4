import CallFlow.Engine.Call

/-! # A run's audit trail -/
namespace CallFlow

structure HistoryItem where
  order : Int
  branch : String
  step : String
  stepType : String
  runCount : Nat
  branchedOnError : Bool
deriving DecidableEq, Repr

namespace HistoryItem

def ofEntry (entry : HistoryEntry) (runCount : Nat) : HistoryItem :=
  ⟨entry.position.order, entry.stepRun.branch, entry.stepRun.name, entry.stepRun.stepType,
    runCount, entry.position.branchedOnError⟩

end HistoryItem

def Engine.history {σ : Type} [Backend σ] (e : Engine) :
    Effect σ EngineError (List HistoryItem) :=
  Effect.mapError .ofStorage do
    let entries ← Backend.history (σ := σ) e.run.record.id
    entries.mapM fun entry => do
      return HistoryItem.ofEntry entry (← Backend.attempts (σ := σ) entry.stepRun.id).length

end CallFlow
