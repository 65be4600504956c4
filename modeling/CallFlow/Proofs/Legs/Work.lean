import CallFlow.Proofs.Legs.Mirror
import Mathlib.Data.Int.ConditionallyCompleteOrder
import Mathlib.Data.Int.SuccPred

/-! # Work on one leg, done twice

A unit of work of one leg is done on two stores, where the second one mirrors the leg. Whatever
is staged belongs to the leg. The store as it would be with the staged writes applied tells what
the engine may refer to, and it stays mirrored from one move to the next.
-/
namespace CallFlow
open Memory

structure StepRun.On (leg : Int) (m : Memory) (r : StepRun) : Prop where
  known : ∃ s, m.stepRuns.get? r.record.id = some s ∧ s.run = leg
  attempts : ∀ a ∈ r.attempts, a.id < m.nextId ∧ a.stepRun < m.nextId

structure Engine.On (leg : Int) (m : Memory) (e : Engine) : Prop where
  run : e.run.record.id = leg
  current : ∀ {b}, e.stepEngine.current? = some b → b.stepRun.On leg m
  position : ∀ {p}, e.position = some p →
    ∃ q, m.positions.get? p.id = some q ∧ q.run = leg ∧ q.stepRun = p.stepRun

section Held
variable {ρ : Int → Int} {leg : Int} {m m' : Memory} {r : StepRun} {e : Engine}

theorem StepRun.On.keeps (h : r.On leg m) (hk : m.Keeps m') : r.On leg m' := by
  obtain ⟨⟨s, hs, hrun⟩, hattempts⟩ := h
  refine ⟨⟨s, hk.stepRuns hs, hrun⟩, fun a ha => ?_⟩
  obtain ⟨hid, hstep⟩ := hattempts a ha
  have hle := hk.nextId
  omega

theorem Engine.On.keeps (h : e.On leg m) (hk : m.Keeps m') : e.On leg m' := by
  refine ⟨h.run, fun hb => (h.current hb).keeps hk, fun hp => ?_⟩
  obtain ⟨q, hq, hrun, hstep⟩ := h.position hp
  obtain ⟨q', hq', hrun', hstep'⟩ := hk.positions hq
  exact ⟨q', hq', hrun'.trans hrun, hstep'.trans hstep⟩

theorem StepRun.On.below (hm : m.Sound) (h : r.On leg m) : r.Below m.nextId := by
  obtain ⟨s, hs, -⟩ := h.known
  exact ⟨(hm.stepRuns hs).2.1, h.attempts⟩

theorem Engine.On.rename_congr {ρ' : Int → Int} (hm : m.Sound) (h : e.On leg m)
    (hρ : ∀ id < m.nextId, ρ' id = ρ id) : e.rename ρ' = e.rename ρ := by
  have hstep : e.stepEngine.rename ρ' = e.stepEngine.rename ρ := by
    cases hs : e.stepEngine with
    | idle => rfl
    | holding b progress =>
      have hb := (h.current (b := b) (by rw [hs]; rfl)).below hm
      simp only [StepEngine.rename, BoundStep.rename, StepRun.rename_congr hρ hb]
  have hposition : e.position.map (PositionRecord.rename ρ') =
      e.position.map (PositionRecord.rename ρ) := by
    cases hp : e.position with
    | none => rfl
    | some p =>
      obtain ⟨q, hq, -, hsame⟩ := h.position hp
      obtain ⟨-, hlt, s, hs, -⟩ := hm.positions hq
      have hlt' := (hm.stepRuns hs).2.1
      simp only [Option.map_some, PositionRecord.rename_congr hρ hlt (hsame ▸ hlt')]
  simp only [rename, hstep, hposition]

variable (hρ : StrictMono ρ) (hm : m.Sound) (hm' : m'.Sound) (hmirrors : m.Mirrors ρ leg m')
include hρ hm hm' hmirrors

theorem StepRun.On.mirrored (h : r.On leg m) : (r.rename ρ).On leg m' := by
  obtain ⟨s, hs, hrun⟩ := h.known
  refine ⟨⟨_, hmirrors.stepRun hm hm' hs hrun, hrun⟩, ?_⟩
  intro a' ha'
  obtain ⟨a, ha, rfl⟩ := List.mem_map.mp ha'
  obtain ⟨hid, hstep⟩ := h.attempts a ha
  rw [← hmirrors.nextId]
  exact ⟨hρ hid, hρ hstep⟩

theorem Engine.On.mirrored (h : e.On leg m) : (e.rename ρ).On leg m' := by
  refine ⟨h.run, fun {b'} hb' => ?_, fun {p'} hp' => ?_⟩
  · obtain ⟨b, hb, rfl⟩ := Option.map_eq_some_iff.mp
      ((StepEngine.current?_rename ρ e.stepEngine).symm.trans hb')
    exact (h.current hb).mirrored hρ hm hm' hmirrors
  · obtain ⟨p, hp, rfl⟩ := Option.map_eq_some_iff.mp hp'
    obtain ⟨q, hq, hrun, hstep⟩ := h.position hp
    exact ⟨_, hmirrors.position hm hm' hq hrun, hrun, congrArg ρ hstep⟩

end Held

namespace Memory

theorem applyWrite_allocate (m : Memory) (w : Write) :
    m.allocate.applyWrite w = (m.applyWrite w).allocate := by
  cases w with
  | markBranched id =>
    simp only [applyWrite, allocate]
    cases m.positions.get? id <;> rfl
  | _ => rfl

theorem keeps_allocate (m : Memory) : m.Keeps m.allocate :=
  ⟨(grows_allocate m).nextId, fun hr => ⟨_, hr⟩, id, fun hp => ⟨_, hp, rfl, rfl⟩⟩

theorem foldl_applyWrite_allocate (m : Memory) (ws : List Write) :
    ws.foldl applyWrite m.allocate = (ws.foldl applyWrite m).allocate := by
  induction ws generalizing m with
  | nil => rfl
  | cons w rest ih => rw [List.foldl_cons, applyWrite_allocate, ih, List.foldl_cons]

end Memory

namespace Work
variable {ρ : Int → Int} {leg : Int} {w w' : Work Memory} {wr : Write} {e : Engine}

def applied (w : Work Memory) : Memory := w.snapshot.writes.foldl applyWrite w.store

theorem applied_stage (w : Work Memory) (wr : Write) :
    applied { w with snapshot := w.snapshot.stage wr } = w.applied.applyWrite wr :=
  List.foldl_append

theorem applied_nextId (w : Work Memory) : w.applied.nextId = w.store.nextId :=
  foldl_applyWrite_nextId _ _

theorem applied_allocate (w : Work Memory) :
    applied { w with store := w.store.allocate } = w.applied.allocate :=
  foldl_applyWrite_allocate _ _

structure On (leg : Int) (w : Work Memory) : Prop where
  sound : w.store.Sound
  applied : w.applied.Sound
  keeps : w.store.Keeps w.applied
  others : ∀ {other}, other ≠ leg → SameLeg w.store w.applied other
  checked : w.store.checkWrites .empty w.snapshot.writes = .ok ()
  run : ∃ r, w.store.runs.get? leg = some r
  engine : w.engine.On leg w.applied

namespace On
variable (h : w.On leg)
include h

theorem allocate : On leg { w with store := w.store.allocate } := by
  have htables : ∀ m : Memory, SameTables m m.allocate := fun m => ⟨rfl, rfl, rfl, rfl⟩
  refine ⟨(htables _).sound (grows_allocate _).nextId h.sound, ?_, ?_, ?_, ?_, h.run, ?_⟩
  · rw [applied_allocate]
    exact (htables _).sound (grows_allocate _).nextId h.applied
  · rw [applied_allocate]
    refine ⟨?_, h.keeps.runs, h.keeps.stepRuns, h.keeps.positions⟩
    exact Int.add_le_add_right h.keeps.nextId 1
  · intro other hother
    rw [applied_allocate]
    have hsame := h.others hother
    exact ⟨hsame.run, hsame.places, hsame.stepRuns, hsame.attempts, hsame.visits,
      hsame.attemptsIn⟩
  · exact (checkWrites_allocate _ _ _).trans h.checked
  · rw [applied_allocate]
    exact h.engine.keeps (keeps_allocate _)

theorem stage (hw : wr.On leg w.applied) (hc : w.store.checkWrite w.snapshot wr = .ok ()) :
    On leg { w with snapshot := w.snapshot.stage wr } := by
  have hkeeps := keeps_applyWrite hw
  refine ⟨h.sound, ?_, ?_, ?_, checkWrites_concat.mpr ⟨h.checked, hc⟩, h.run, ?_⟩
  · rw [applied_stage]
    exact h.applied.applyWrite hw
  · rw [applied_stage]
    exact h.keeps.trans hkeeps
  · intro other hother
    rw [applied_stage]
    exact (h.others hother).trans (sameLeg_applyWrite h.applied hw hother)
  · rw [applied_stage]
    exact h.engine.keeps hkeeps

theorem withEngine (he : e.On leg w.applied) : On leg { w with engine := e } :=
  ⟨h.sound, h.applied, h.keeps, h.others, h.checked, h.run, he⟩

end On

/-- Two units of work of a leg that have come equally far, the second one under renamed ids. -/
structure Mirrors (ρ : Int → Int) (leg : Int) (w w' : Work Memory) : Prop where
  left : w.On leg
  right : w'.On leg
  store : w.store.Mirrors ρ leg w'.store
  applied : w.applied.Mirrors ρ leg w'.applied
  snapshot : w'.snapshot = w.snapshot.rename ρ
  engine : w'.engine = w.engine.rename ρ

namespace Mirrors
variable (hρ : StrictMono ρ) (h : w.Mirrors ρ leg w')
include h

theorem allocate :
    Mirrors ρ leg { w with store := w.store.allocate } { w' with store := w'.store.allocate } := by
  refine ⟨h.left.allocate, h.right.allocate, h.store.allocate, ?_, h.snapshot, h.engine⟩
  rw [applied_allocate, applied_allocate]
  exact h.applied.allocate

include hρ

theorem stage (hw : wr.On leg w.applied) (hw' : (wr.rename ρ).On leg w'.applied)
    (hc : w.store.checkWrite w.snapshot wr = .ok ())
    (hc' : w'.store.checkWrite w'.snapshot (wr.rename ρ) = .ok ()) :
    Mirrors ρ leg { w with snapshot := w.snapshot.stage wr }
      { w' with snapshot := w'.snapshot.stage (wr.rename ρ) } := by
  refine ⟨h.left.stage hw hc, h.right.stage hw' hc', h.store, ?_, ?_, h.engine⟩
  · rw [applied_stage, applied_stage]
    exact h.applied.applyWrite hρ.injective h.left.applied h.right.applied hw hw'
  · show w'.snapshot.stage (wr.rename ρ) = (w.snapshot.stage wr).rename ρ
    rw [h.snapshot]
    exact (Snapshot.stage_rename ρ w.snapshot wr).symm

theorem withEngine (he : e.On leg w.applied) :
    Mirrors ρ leg { w with engine := e } { w' with engine := e.rename ρ } :=
  ⟨h.left.withEngine he,
    h.right.withEngine (he.mirrored hρ h.left.applied h.right.applied h.applied), h.store,
    h.applied, h.snapshot, rfl⟩

end Mirrors
end Work
end CallFlow
