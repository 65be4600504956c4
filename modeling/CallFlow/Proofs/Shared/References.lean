import CallFlow.Proofs.Shared.Sound
import CallFlow.Proofs.Store.History

/-! # References lead to rows

What a record refers to is looked up once, when the record is staged. It may be staged on the same
snapshot and not be in the store yet, but then it is written before the record, and rows are never
dropped. So every reference in the store leads to a row, and every history can be read.
-/
namespace CallFlow.SharedStore
open Memory
variable {x : SharedStore}

/-- Step runs are of runs in the store, attempts and positions are of step runs in the store. So the
history of any run can be read, and it has the listed positions in their order, each with the step
run that it refers to. -/
theorem references_lead_to_rows (h : x.Reachable) :
    (∀ {id s}, x.store.stepRuns.get? id = some s → ∃ r, x.store.runs.get? s.run = some r) ∧
    (∀ {id a}, x.store.attempts.get? id = some a →
      ∃ s, x.store.stepRuns.get? a.stepRun = some s) ∧
    (∀ {id p}, x.store.positions.get? id = some p →
      ∃ s, x.store.stepRuns.get? p.stepRun = some s) ∧
    ∀ run, ∃ ps entries,
      (Backend.positions (σ := Memory) run).run x.store = (.ok ps, x.store) ∧
      (Backend.history (σ := Memory) run).run x.store = (.ok entries, x.store) ∧
      entries.map (·.position) = ps ∧
      ∀ e ∈ entries, x.store.stepRuns.get? e.position.stepRun = some e.stepRun ∧
        e.stepRun.id = e.position.stepRun := by
  have hlinked := h.sound.linked
  refine ⟨fun hs => (hlinked.stepRuns hs).2, fun ha => (hlinked.attempts ha).2,
    fun hp => (hlinked.positions hp).2, ?_⟩
  intro run
  have hjoined : ∀ p ∈ x.store.positionsOf run, ∃ s, x.store.stepRuns.get? p.stepRun = some s := by
    intro p hp
    obtain ⟨⟨id, hget⟩, -⟩ := mem_positionsOf.mp hp
    exact (hlinked.positions hget).2
  refine ⟨_, x.store.historyOf run, rfl, ?_, historyOf_positions hjoined, ?_⟩
  · rw [history_run, history_eq hjoined]
  · intro e he
    have hstep := mem_historyOf he
    exact ⟨hstep, (hlinked.stepRuns hstep).1⟩

/-- The position of the first rival leads to the step run that was committed before, and its history
shows the two together. -/
theorem references_lead_to_rows_rivals : ∃ (p : PositionRecord) (s : StepRunRecord),
    Rivals.settled.store.positions.get? 4 = some p ∧
    Rivals.settled.store.stepRuns.get? p.stepRun = some s ∧
    (∃ r, Rivals.settled.store.runs.get? s.run = some r) ∧
    ∃ entries, (Backend.history (σ := Memory) 1).run Rivals.settled.store =
        (.ok entries, Rivals.settled.store) ∧ entries.map (·.position) = [p] := by
  obtain ⟨hstepRuns, -, hpositions, hhistory⟩ := references_lead_to_rows Rivals.reachable_settled
  obtain ⟨p, hp, hlisted⟩ : ∃ p, Rivals.settled.store.positions.get? 4 = some p ∧
      (Backend.positions (σ := Memory) 1).run Rivals.settled.store =
        (.ok [p], Rivals.settled.store) := ⟨_, rfl, rfl⟩
  obtain ⟨s, hs⟩ := hpositions hp
  obtain ⟨ps, entries, hps, hentries, hmap, -⟩ := hhistory 1
  rw [hlisted] at hps
  cases hps
  exact ⟨p, s, hp, hs, hstepRuns hs, entries, hentries, hmap⟩

end CallFlow.SharedStore
