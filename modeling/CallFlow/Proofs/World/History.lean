import CallFlow.Proofs.World.Deployed

/-! # Runs of a reachable world

Every run was only created, or it is under way: its history runs up to its current step, and all
that is recorded for it is of its flow.
-/
namespace CallFlow.World
variable {registry : Registry} {w : World}

/-- A run has the flow it was created with, and it waits there with nothing on record or stands at
the last position of its history. -/
theorem unprepared_or_underway {id : Int} {r : RunRecord} (h : Reachable registry w)
    (hr : w.store.runs.get? id = some r) :
    ∃ config, w.catalog.resolve r.configTag = .ok config ∧ r.id = id ∧
      (w.store.Unprepared config r ∨
        ∃ state p s, w.store.Underway registry config ⟨r, state⟩ p s) := by
  have hsound := h.sound
  obtain ⟨config, hconfig, htracks⟩ := hsound.runs hr
  exact ⟨config, hconfig, (hsound.store.runs hr).1, htracks⟩

/-- After the greeting the run stands at its second position. -/
theorem unprepared_or_underway_reception : ∃ (r : RunRecord) (config : FlowConfig)
    (state : RunState) (p : PositionRecord) (s : StepRunRecord),
      Reception.greeted.store.runs.get? 1 = some r ∧ r.version = 2 ∧ p.order = 2 ∧
      Reception.greeted.store.Underway .builtins config ⟨r, state⟩ p s := by
  have hstored : (Reception.greeted.store.runs.get? 1).map (·.version) = some 2 := by
    decide +kernel
  have hlatest : (Reception.greeted.store.latestPosition 1).map (·.order) = some 2 := by
    decide +kernel
  obtain ⟨r, hr, hversion⟩ := Option.map_eq_some_iff.mp hstored
  obtain ⟨config, -, hid, hu | ⟨state, p, s, hu⟩⟩ :=
    unprepared_or_underway Reception.reachable_greeted hr
  · have hzero := hu.version
    omega
  · have hp : Reception.greeted.store.latestPosition r.id = some p := hu.latest
    rw [hid] at hp
    rw [hp] at hlatest
    exact ⟨r, config, state, p, s, hr, hversion, Option.some.inj hlatest, hu⟩

end CallFlow.World
