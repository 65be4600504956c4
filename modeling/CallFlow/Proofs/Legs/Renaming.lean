import CallFlow.Engine.Call
import CallFlow.Store.Memory

/-! # Ids renamed

Two stores that hold the same leg need not have given its records the same ids. Renaming runs
through all that an engine holds, stages and answers. The id of a run is no one's to rename: it
is how the adapter calls the leg. An id that was never given out may be renamed in any way.
-/
namespace CallFlow

section Rename
variable (ρ : Int → Int)

def StepRunRecord.rename (s : StepRunRecord) : StepRunRecord := { s with id := ρ s.id }

def AttemptRecord.rename (a : AttemptRecord) : AttemptRecord :=
  { a with id := ρ a.id, stepRun := ρ a.stepRun }

def PositionRecord.rename (p : PositionRecord) : PositionRecord :=
  { p with id := ρ p.id, stepRun := ρ p.stepRun }

def HistoryEntry.rename (h : HistoryEntry) : HistoryEntry :=
  ⟨h.position.rename ρ, h.stepRun.rename ρ⟩

def Write.rename : Write → Write
  | .insertRun r => .insertRun r
  | .updateRun r => .updateRun r
  | .insertStepRun s => .insertStepRun (s.rename ρ)
  | .insertAttempt a => .insertAttempt (a.rename ρ)
  | .insertPosition p => .insertPosition (p.rename ρ)
  | .markBranched id => .markBranched (ρ id)

def Snapshot.rename (s : Snapshot) : Snapshot := ⟨s.writes.map (Write.rename ρ)⟩

def StepRun.rename (r : StepRun) : StepRun :=
  ⟨r.record.rename ρ, r.attempts.map (AttemptRecord.rename ρ)⟩

def BoundStep.rename (b : BoundStep) : BoundStep := { b with stepRun := b.stepRun.rename ρ }

def StepEngine.rename : StepEngine → StepEngine
  | .idle => .idle
  | .holding b progress => .holding (b.rename ρ) progress

def Engine.rename (e : Engine) : Engine :=
  { e with
    stepEngine := e.stepEngine.rename ρ
    position := e.position.map (PositionRecord.rename ρ) }

def NextStep.rename : NextStep → NextStep
  | .step b => .step (b.rename ρ)
  | .exit path => .exit path

def Outcome.rename (o : Outcome) : Outcome := { o with next := o.next.rename ρ }

def RetryTarget.rename (t : RetryTarget) : RetryTarget :=
  { t with stepRun := t.stepRun.map (StepRun.rename ρ) }

end Rename

/-! ## Looking through a renaming -/

section Look
variable (ρ : Int → Int)

theorem Write.version?_rename (id : Int) (w : Write) : (w.rename ρ).version? id = w.version? id := by
  cases w <;> rfl

theorem Snapshot.version?_rename (s : Snapshot) (id : Int) :
    (s.rename ρ).version? id = s.version? id := by
  simp only [version?, rename, ← List.map_reverse, List.findSome?_map, Function.comp_def,
    Write.version?_rename]

theorem Snapshot.hasOrder_rename (s : Snapshot) (run order : Int) :
    (s.rename ρ).hasOrder run order = s.hasOrder run order := by
  simp only [hasOrder, rename, List.any_map, Function.comp_def]
  refine congrArg s.writes.any (funext fun w => ?_)
  cases w <;> rfl

theorem Snapshot.stage_rename (s : Snapshot) (w : Write) :
    (s.stage w).rename ρ = (s.rename ρ).stage (w.rename ρ) := by
  simp [stage, rename]

theorem StepEngine.current?_rename (e : StepEngine) :
    (e.rename ρ).current? = e.current?.map (BoundStep.rename ρ) := by
  cases e <;> rfl

theorem StepEngine.stateName_rename (e : StepEngine) : (e.rename ρ).stateName = e.stateName := by
  cases e with
  | idle => rfl
  | holding b progress => cases progress <;> rfl

theorem StepEngine.ready_of_rename {e : StepEngine} {b : BoundStep}
    (h : e.rename ρ = .holding b .ready) : ∃ b', e = .holding b' .ready := by
  cases e with
  | idle => cases h
  | holding b' progress =>
    obtain ⟨-, rfl⟩ := StepEngine.holding.inj h
    exact ⟨b', rfl⟩

end Look

/-! ## Renaming nothing -/

theorem StepRun.rename_id (r : StepRun) : r.rename id = r := by
  have hid : AttemptRecord.rename id = id := rfl
  obtain ⟨record, attempts⟩ := r
  simp only [rename, hid, List.map_id]
  rfl

theorem Engine.rename_id (e : Engine) : e.rename id = e := by
  have hposition : PositionRecord.rename id = id := rfl
  obtain ⟨config, run, stepEngine, position⟩ := e
  cases stepEngine with
  | idle => simp only [rename, hposition, Option.map_id_apply, StepEngine.rename]
  | holding b progress =>
    simp only [rename, hposition, Option.map_id_apply, StepEngine.rename, BoundStep.rename,
      StepRun.rename_id]

/-! ## Ids below a bound -/

structure StepRun.Below (n : Int) (r : StepRun) : Prop where
  id : r.record.id < n
  attempts : ∀ a ∈ r.attempts, a.id < n ∧ a.stepRun < n

section Agree
variable {ρ ρ' : Int → Int} {n : Int} (hρ : ∀ id < n, ρ' id = ρ id)
include hρ

theorem StepRunRecord.rename_congr {s : StepRunRecord} (h : s.id < n) :
    s.rename ρ' = s.rename ρ := by
  simp only [rename, hρ _ h]

theorem AttemptRecord.rename_congr {a : AttemptRecord} (h : a.id < n) (hs : a.stepRun < n) :
    a.rename ρ' = a.rename ρ := by
  simp only [rename, hρ _ h, hρ _ hs]

theorem PositionRecord.rename_congr {p : PositionRecord} (h : p.id < n) (hs : p.stepRun < n) :
    p.rename ρ' = p.rename ρ := by
  simp only [rename, hρ _ h, hρ _ hs]

theorem StepRun.rename_congr {r : StepRun} (h : r.Below n) : r.rename ρ' = r.rename ρ := by
  have hattempts : r.attempts.map (AttemptRecord.rename ρ') =
      r.attempts.map (AttemptRecord.rename ρ) :=
    List.map_congr_left fun a ha =>
      AttemptRecord.rename_congr hρ (h.attempts a ha).1 (h.attempts a ha).2
  simp only [rename, StepRunRecord.rename_congr hρ h.id, hattempts]

end Agree
end CallFlow
