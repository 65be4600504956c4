import CallFlow.Engine.Next
import CallFlow.Proofs.Flow.Valid
import CallFlow.Proofs.Store.Change

/-! # The history of a run

A run that is under way has a history that ends at its current step, and nothing is recorded
for it that its history does not show. A unit of work stays at the current step, goes back to a
step that was visited before, or enters a step anew; either way it continues the history.
-/
namespace CallFlow

theorem RunState.name_inj {s s' : RunState} (h : s.name = s'.name) : s = s' := by
  apply Option.some.inj
  rw [← ofName?_name, ← ofName?_name, h]

structure StepRunRecord.Visits (s : StepRunRecord) (step : Step) : Prop where
  name : s.name = step.name
  branch : s.branch = step.branch
  stepType : s.stepType = step.behavior.typeName
  snapshot : s.snapshot = step.snapshot

namespace Memory

/-- What is recorded for a run is its history: positions one after the other, each at a step
run of the run, and no step run that was not visited or that is not of a step of the flow. -/
structure Recorded (m : Memory) (registry : Registry) (config : FlowConfig) (run : Int) :
    Prop where
  orders : (m.positionsOf run).map (·.order) =
    (List.range (m.positionsOf run).length).map fun i : Nat => (i : Int) + 1
  joined : ∀ p ∈ m.positionsOf run, ∃ s, m.stepRuns.get? p.stepRun = some s ∧ s.run = run
  visited : ∀ {id s}, m.stepRuns.get? id = some s → s.run = run →
    ∃ p ∈ m.positionsOf run, p.stepRun = id
  built : ∀ {id s}, m.stepRuns.get? id = some s → s.run = run →
    ∃ step, config.HasStep registry step ∧ s.Visits step

structure Underway (m : Memory) (registry : Registry) (config : FlowConfig) (run : Run)
    (p : PositionRecord) (s : StepRunRecord) : Prop where
  recorded : m.Recorded registry config run.record.id
  latest : m.latestPosition run.record.id = some p
  current : m.stepRuns.get? p.stepRun = some s
  branch : run.record.branch = s.branch
  unmarked : p.branchedOnError = false
  named : run.record.state = run.state.name
  settled : run.state ≠ .uninitialized ∧ run.state ≠ .processingInput
  prompted : run.state = .requestingUserInput →
    ∃ step, config.HasStep registry step ∧ s.Visits step ∧ step.isInput = true
  fresh : run.state = .initialized → m.positionsOf run.record.id = [p] ∧ m.attemptsOf s.id = []

/-- The run was created and nothing else: it waits at its flow's first branch. -/
structure Unprepared (m : Memory) (config : FlowConfig) (r : RunRecord) : Prop where
  state : r.state = RunState.uninitialized.name
  version : r.version = 0
  positions : m.positionsOf r.id = []
  stepRuns : ∀ {id s}, m.stepRuns.get? id = some s → s.run ≠ r.id
  branch : ∃ b, config.tree.firstBranch = .ok b ∧ r.branch = b.name

variable {m m' : Memory} {registry : Registry} {config : FlowConfig}

namespace Recorded
variable {run : Int} (h : m.Recorded registry config run)
include h

theorem order_le {p : PositionRecord} (hp : p ∈ m.positionsOf run) :
    p.order ≤ (m.positionsOf run).length := by
  have hmem : p.order ∈ (m.positionsOf run).map (·.order) := List.mem_map_of_mem hp
  rw [h.orders] at hmem
  obtain ⟨i, hi, heq⟩ := List.mem_map.mp hmem
  rw [List.mem_range] at hi
  omega

theorem order_getElem {i : Nat} (hi : i < (m.positionsOf run).length) :
    (m.positionsOf run)[i].order = i + 1 := by
  have hget := congrArg (·[i]?) h.orders
  simpa [hi] using hget

theorem order_inj {p q : PositionRecord} (hp : p ∈ m.positionsOf run) (hq : q ∈ m.positionsOf run)
    (ho : p.order = q.order) : p = q := by
  obtain ⟨i, hi, rfl⟩ := List.getElem_of_mem hp
  obtain ⟨j, hj, rfl⟩ := List.getElem_of_mem hq
  rw [h.order_getElem hi, h.order_getElem hj] at ho
  obtain rfl : i = j := by omega
  rfl

theorem order_latest {p : PositionRecord} (hp : m.latestPosition run = some p) :
    p.order = (m.positionsOf run).length := by
  have hlast : ((m.positionsOf run).map (·.order)).getLast? = some p.order := by
    rw [List.getLast?_map]
    exact congrArg (Option.map (·.order)) hp
  have hne : (m.positionsOf run).length ≠ 0 := by
    rw [Ne, List.length_eq_zero_iff, ← latestPosition_eq_none_iff, hp]
    exact Option.some_ne_none p
  rw [h.orders, List.getLast?_map, List.getLast?_range, if_neg hne] at hlast
  have heq : ((m.positionsOf run).length - 1 : Nat) + (1 : Int) = p.order := by simpa using hlast
  omega

theorem sameLeg (hs : SameLeg m m' run) : m'.Recorded registry config run := by
  constructor
  · rw [hs.positions]
    exact h.orders
  · intro p hp
    rw [hs.positions] at hp
    obtain ⟨s, hget, hrun⟩ := h.joined p hp
    exact ⟨s, (hs.stepRuns hrun).mpr hget, hrun⟩
  · intro id s hget hrun
    rw [hs.positions]
    exact h.visited ((hs.stepRuns hrun).mp hget) hrun
  · intro id s hget hrun
    exact h.built ((hs.stepRuns hrun).mp hget) hrun

end Recorded

/-- A run that is under way stands at a step run of its own. -/
theorem Underway.current_run {run : Run} {p : PositionRecord} {s : StepRunRecord} (hm : m.Sound)
    (h : m.Underway registry config run p s) :
    s.run = run.record.id ∧ p.stepRun = s.id ∧ m.stepRuns.get? s.id = some s := by
  obtain ⟨s', hget, hrun, hid⟩ := hm.joined (latestPosition_mem h.latest)
  obtain rfl : s' = s := Option.some.inj (hget.symm.trans h.current)
  exact ⟨hrun, hid.symm, hid ▸ hget⟩

theorem Underway.sameLeg {run : Run} {p : PositionRecord} {s : StepRunRecord} (hm : m.Sound)
    (h : m.Underway registry config run p s) (hs : SameLeg m m' run.record.id) :
    m'.Underway registry config run p s := by
  obtain ⟨hrun, -, hget⟩ := h.current_run hm
  refine ⟨h.recorded.sameLeg hs, ?_, (hs.stepRuns hrun).mpr h.current, h.branch, h.unmarked,
    h.named, h.settled, h.prompted, fun hstate => ?_⟩
  · rw [hs.latestPosition]
    exact h.latest
  · obtain ⟨hone, hnone⟩ := h.fresh hstate
    rw [hs.positions, hs.attempts hget hrun]
    exact ⟨hone, hnone⟩

theorem Unprepared.sameLeg {r : RunRecord} (h : m.Unprepared config r)
    (hs : SameLeg m m' r.id) : m'.Unprepared config r := by
  refine ⟨h.state, h.version, by rw [hs.positions]; exact h.positions, ?_, h.branch⟩
  intro id s hget hrun
  exact h.stepRuns ((hs.stepRuns hrun).mp hget) hrun

theorem Unprepared.recorded {r : RunRecord} (h : m.Unprepared config r) (registry : Registry) :
    m.Recorded registry config r.id := by
  constructor
  · simp [h.positions]
  · simp [h.positions]
  · exact fun hget hrun => absurd hrun (h.stepRuns hget)
  · exact fun hget hrun => absurd hrun (h.stepRuns hget)

end Memory
end CallFlow
