import CallFlow.Engine.Error
import CallFlow.Store.Backend

/-! # A run in hand

A run is its record with the state read from it. The state only changes by firing triggers.
-/
namespace CallFlow

structure Run where
  record : RunRecord
  state : RunState
deriving DecidableEq

namespace Run

def ofRecord (record : RunRecord) : Except EngineError Run :=
  match RunState.ofName? record.state with
  | some state => .ok ⟨record, state⟩
  | none => .error (.initialization (.unknownState record.id record.state))

def fire (r : Run) (t : Trigger) : Except EngineError Run :=
  match t.fire? r.state with
  | some state => .ok { r with state }
  | none => .error (.invalidState r.state t)

def toRecord (r : Run) : RunRecord := { r.record with state := r.state.name }

def withSession (r : Run) (session : Fields) : Run :=
  { r with record := { r.record with session } }

def onBranch (r : Run) (branch : String) : Run := { r with record := { r.record with branch } }

def atVersion (r : Run) (version : Int) : Run :=
  { r with record := { r.toRecord with version } }

def load {σ : Type} [Backend σ] (id : Int) : Effect σ EngineError Run := do
  let record ← Effect.mapError .ofStorage (Backend.run (σ := σ) id)
  Effect.ofExcept (ofRecord record)

end Run
end CallFlow
