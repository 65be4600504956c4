import CallFlow.Proofs.Shared.Origin
import CallFlow.Proofs.World.Sound

/-! # The run of a position

The step run of a new position is looked up when the position is staged. The run that the position
names is not, neither then nor at the commit. So a position belongs to its run if the client that
staged it has named the run of the step run, as engines do. Otherwise the store keeps a position of
a run that need not exist, and no later write puts it right.
-/
namespace CallFlow
open Memory

/-- Positions are of runs in the store, and so are their step runs. -/
def Memory.Anchored (m : Memory) : Prop :=
  ∀ id p, m.positions.get? id = some p →
    (∃ r, m.runs.get? p.run = some r) ∧ ∃ s, m.stepRuns.get? p.stepRun = some s ∧ s.run = p.run

theorem Memory.Sound.anchored {m : Memory} (h : m.Sound) : m.Anchored := by
  intro id p hp
  obtain ⟨-, -, s, hs, hrun⟩ := h.positions hp
  obtain ⟨-, -, r, hr⟩ := h.stepRuns hs
  exact ⟨⟨r, hrun ▸ hr⟩, s, hs, hrun⟩

namespace SharedStore
variable {x : SharedStore}

/-- Positions are of their runs if all clients have named the run of the step run. -/
theorem Reachable.anchored_iff (h : x.Reachable) :
    x.store.Anchored ↔ ∀ p s, x.Settled (.position p) →
      x.store.stepRuns.get? p.stepRun = some s → s.run = p.run := by
  have hlinked := h.sound.linked
  constructor
  · intro hanchored q s hq hs
    obtain ⟨p, hp, hbecomes⟩ := h.positionsSettled.stored hq
    obtain ⟨-, hrun, hstep, -⟩ := hbecomes.same
    obtain ⟨-, t, ht, hown⟩ := hanchored _ p hp
    rw [hstep, hs] at ht
    cases ht
    exact hown.trans hrun
  · intro hown id p hp
    obtain ⟨q, hq, -, hbecomes⟩ := h.positionsSettled.settled hp
    obtain ⟨-, hrun, hstep, -⟩ := hbecomes.same
    obtain ⟨-, s, hs⟩ := hlinked.positions hp
    obtain ⟨-, r, hr⟩ := hlinked.stepRuns hs
    have hsame : s.run = p.run := (hown q s hq (hstep ▸ hs)).trans hrun.symm
    exact ⟨⟨r, hsame ▸ hr⟩, s, hs, hsame⟩

theorem alone_insertPosition (x : SharedStore) {id : Int} {s : StepRunRecord}
    (hs : x.store.stepRuns.get? id = some s) {run order : Int}
    (ho : x.store.hasOrder run order = false) :
    (x.after (x.alone (.insertPosition ⟨run, id, order⟩))).store.positions.get? x.store.nextId =
      some ⟨x.store.nextId, run, id, order, false, x.store.clock⟩ := by
  let p : PositionRecord := ⟨x.store.nextId, run, id, order, false, x.store.clock⟩
  have hknown : x.store.knowsStepRun .empty id = true := by
    rw [Snapshot.empty, knowsStepRun_eq, List.foldl_nil, hs, Option.isSome_some]
  have hstage : (Request.stage .empty (.insertPosition ⟨run, id, order⟩)).run x.store =
      (.ok (.position p, Snapshot.empty.stage (.insertPosition p)), x.store.allocate) := by
    have hcall : (Backend.insertPosition (σ := Memory) ⟨run, id, order⟩ Snapshot.empty).run x.store =
      x.store.insertPosition ⟨run, id, order⟩ .empty := rfl
    simp only [Request.stage, Effect.run_bind, hcall, Memory.insertPosition, hknown, ho]
    rfl
  have hcheck : x.store.allocate.checkWrite .empty (.insertPosition p) = .ok () := by
    have hfree : x.store.allocate.hasOrder p.run p.order = false := ho
    rw [checkWrite, hfree]
    rfl
  rw [x.alone_store (.position p) hstage hcheck]
  exact Table.get?_insert_self _ _ _

/-- Positions are of their runs if every client named the run of the step run. Nothing else is
asked: a step run can be put into the history of any run, where it stays. Engines name the right
run. -/
theorem position_run_as_named (h : x.Reachable) :
    (x.store.Anchored ↔ ∀ p s, x.Settled (.position p) →
      x.store.stepRuns.get? p.stepRun = some s → s.run = p.run) ∧
    (∀ {id s}, x.store.stepRuns.get? id = some s → ∀ run order,
      x.store.hasOrder run order = false →
      ∃ actions p, (x.after actions).store.positions.get? p.id = some p ∧ p.run = run ∧
        p.stepRun = id ∧ p.order = order) ∧
    (∀ {id p}, x.store.positions.get? id = some p → ∀ actions, ∃ q,
      (x.after actions).store.positions.get? id = some q ∧ q.run = p.run ∧
        q.stepRun = p.stepRun ∧ q.order = p.order) ∧
    ∀ {registry : Registry} {w : World}, World.Reachable registry w → w.store.Anchored := by
  refine ⟨h.anchored_iff, ?_, ?_, fun hw => hw.sound.store.anchored⟩
  · intro id s hs run order ho
    exact ⟨_, ⟨x.store.nextId, run, id, order, false, x.store.clock⟩, x.alone_insertPosition hs ho,
      rfl, rfl, rfl⟩
  · intro id p hp actions
    obtain ⟨q, hq, hbecomes⟩ := (h.sound.retains_after actions).positions hp
    exact ⟨q, hq, hbecomes.same.2⟩

/-- A client has put the step run of the first run into the history of a run that does not exist. -/
def stray : SharedStore := Rivals.opened.after (Rivals.opened.alone (.insertPosition ⟨99, 2, 1⟩))

theorem reachable_stray : stray.Reachable := Rivals.reachable_opened.after _

/-- The stray position is listed for the missing run, with a step run of another one. -/
theorem position_run_as_named_stray : ∃ (p : PositionRecord) (s : StepRunRecord),
    stray.Settled (.position p) ∧
    (Backend.positions (σ := Memory) 99).run stray.store = (.ok [p], stray.store) ∧
    stray.store.stepRuns.get? p.stepRun = some s ∧ s.run = 1 ∧
    stray.store.runs.get? 99 = none ∧
    ¬ stray.store.Anchored ∧
    ∀ actions, ∃ q, (stray.after actions).store.positions.get? p.id = some q ∧ q.run = 99 := by
  obtain ⟨hiff, -, hkept, -⟩ := position_run_as_named reachable_stray
  obtain ⟨p, s, hp, hlisted, hget, hs, hrun, hother⟩ : ∃ (p : PositionRecord) (s : StepRunRecord),
      stray.Settled (.position p) ∧
      (Backend.positions (σ := Memory) 99).run stray.store = (.ok [p], stray.store) ∧
      stray.store.positions.get? p.id = some p ∧
      stray.store.stepRuns.get? p.stepRun = some s ∧ p.run = 99 ∧ s.run = 1 :=
    ⟨⟨3, 99, 2, 1, false, ""⟩, _, ⟨3, _, rfl, rfl, by decide⟩, rfl, rfl, rfl, rfl, rfl⟩
  refine ⟨p, s, hp, hlisted, hs, hother, rfl, fun hanchored => ?_, fun actions => ?_⟩
  · have hsame := hiff.mp hanchored p s hp hs
    omega
  · obtain ⟨q, hq, hq', -⟩ := hkept hget actions
    exact ⟨q, hq, hq'.trans hrun⟩

end SharedStore
end CallFlow
