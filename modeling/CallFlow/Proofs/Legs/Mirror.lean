import CallFlow.Proofs.Engine.Moves
import CallFlow.Proofs.Legs.Renaming
import CallFlow.Proofs.Legs.Write
import Mathlib.Data.List.Basic

/-! # One leg in two stores

A store mirrors a leg of another one when it holds the same rows for that leg under other ids.
Whatever is asked for the leg has the same answer there up to the ids, and the same write of the
leg, made in both, keeps the mirror.
-/
namespace CallFlow.Memory

/-- The second store holds the leg of the first one under renamed ids, and the ids that the two
are about to give out are renamed to each other. -/
structure Mirrors (ρ : Int → Int) (leg : Int) (m m' : Memory) : Prop where
  run : m'.runs.get? leg = m.runs.get? leg
  visits : m'.visitsOf leg = (m.visitsOf leg).map (StepRunRecord.rename ρ)
  attempts : ∀ {id s}, m.stepRuns.get? id = some s → s.run = leg →
    m'.attemptsOf (ρ id) = (m.attemptsOf id).map (AttemptRecord.rename ρ)
  places : m'.placesOf leg = (m.placesOf leg).map (PositionRecord.rename ρ)
  clock : m'.clock = m.clock
  next : ∀ i : Nat, ρ (m.nextId + i) = m'.nextId + i

theorem Mirrors.refl (m : Memory) (leg : Int) : m.Mirrors id leg m :=
  ⟨rfl, (List.map_id _).symm, fun _ _ => (List.map_id _).symm, (List.map_id _).symm, rfl,
    fun _ => rfl⟩

namespace Mirrors
variable {ρ ρ' : Int → Int} {leg : Int} {m m' m'' : Memory}

section Ask
variable (h : m.Mirrors ρ leg m')
include h

theorem nextId : ρ m.nextId = m'.nextId := by
  simpa using h.next 0

theorem positionsOf : m'.positionsOf leg = (m.positionsOf leg).map (PositionRecord.rename ρ) := by
  rw [positionsOf_eq, h.places, positionsOf_eq]
  exact foldr_placeByOrder_map (f := PositionRecord.rename ρ) (fun _ => rfl) _

theorem latestPosition :
    m'.latestPosition leg = (m.latestPosition leg).map (PositionRecord.rename ρ) := by
  rw [Memory.latestPosition, h.positionsOf, List.getLast?_map, Memory.latestPosition]

theorem hasOrder (order : Int) : m'.hasOrder leg order = m.hasOrder leg order := by
  have hany : ∀ m : Memory, m.hasOrder leg order = (m.placesOf leg).any (·.order = order) := by
    intro m
    simp only [Memory.hasOrder, placesOf, List.any_filter]
  rw [hany, hany, h.places, List.any_map]
  rfl

theorem findStepRun (branch name : String) :
    m'.findStepRun leg branch name =
      (m.findStepRun leg branch name).map (StepRunRecord.rename ρ) := by
  rw [findStepRun_eq, h.visits, List.filter_map, List.getLast?_map, findStepRun_eq]
  rfl

variable (hm : m.Sound) (hm' : m'.Sound)
include hm hm'

theorem stepRun {id : Int} {s : StepRunRecord} (hs : m.stepRuns.get? id = some s)
    (hrun : s.run = leg) : m'.stepRuns.get? (ρ id) = some (s.rename ρ) := by
  have hmem : s ∈ m.visitsOf leg :=
    List.mem_filter.mpr ⟨Table.mem_values_iff.mpr ⟨id, hs⟩, decide_eq_true hrun⟩
  have hmem' : s.rename ρ ∈ m'.visitsOf leg := by
    rw [h.visits]
    exact List.mem_map_of_mem hmem
  have hget := hm'.mem_stepRuns_iff.mp (List.mem_filter.mp hmem').1
  rwa [show (s.rename ρ).id = ρ id from congrArg ρ (hm.stepRuns hs).1] at hget

theorem position {id : Int} {p : PositionRecord} (hp : m.positions.get? id = some p)
    (hrun : p.run = leg) : m'.positions.get? (ρ id) = some (p.rename ρ) := by
  have hmem : p ∈ m.placesOf leg :=
    List.mem_filter.mpr ⟨Table.mem_values_iff.mpr ⟨id, hp⟩, decide_eq_true hrun⟩
  have hmem' : p.rename ρ ∈ m'.placesOf leg := by
    rw [h.places]
    exact List.mem_map_of_mem hmem
  obtain ⟨i, hi⟩ := Table.mem_values_iff.mp (List.mem_filter.mp hmem').1
  have hid : ρ p.id = i := (hm'.positions hi).1
  rw [(hm.positions hp).1] at hid
  rwa [hid]

theorem historyOf : m'.historyOf leg = (m.historyOf leg).map (HistoryEntry.rename ρ) := by
  unfold Memory.historyOf
  rw [h.positionsOf, List.filterMap_map, List.map_filterMap]
  apply List.filterMap_congr
  intro p hp
  obtain ⟨s, hs, hrun, -⟩ := hm.joined hp
  have hs' : m'.stepRuns.get? (p.rename ρ).stepRun = some (s.rename ρ) :=
    h.stepRun hm hm' hs hrun
  simp only [Function.comp_apply, hs', hs]
  rfl

end Ask

/-- Nothing that happens to other legs spoils the mirror; what is given out later may be renamed
anew. -/
theorem sameLeg (hm : m.Sound) (hm' : m'.Sound) (h : m.Mirrors ρ leg m')
    (hs : SameLeg m' m'' leg) (hclock : m''.clock = m'.clock)
    (hρ : ∀ id < m.nextId, ρ' id = ρ id)
    (hnext : ∀ i : Nat, ρ' (m.nextId + i) = m''.nextId + i) : m.Mirrors ρ' leg m'' := by
  refine ⟨hs.run.trans h.run, ?_, ?_, ?_, hclock.trans h.clock, hnext⟩
  · rw [hs.visits, h.visits]
    refine List.map_congr_left fun s hmem => (StepRunRecord.rename_congr hρ ?_).symm
    obtain ⟨id, hget⟩ := Table.mem_values_iff.mp (List.mem_filter.mp hmem).1
    obtain ⟨hid, hlt, -⟩ := hm.stepRuns hget
    rwa [hid]
  · intro id s hget hrun
    obtain ⟨-, hlt, -⟩ := hm.stepRuns hget
    rw [hρ _ hlt, hs.attempts (h.stepRun hm hm' hget hrun) hrun, h.attempts hget hrun]
    refine List.map_congr_left fun a hmem => (AttemptRecord.rename_congr hρ ?_ ?_).symm
    · obtain ⟨⟨i, hi⟩, -⟩ := mem_attemptsOf.mp hmem
      obtain ⟨hid, hlt, -⟩ := hm.attempts hi
      rwa [hid]
    · rwa [(mem_attemptsOf.mp hmem).2]
  · rw [hs.places, h.places]
    refine List.map_congr_left fun p hmem => (PositionRecord.rename_congr hρ ?_ ?_).symm
    · obtain ⟨id, hget⟩ := Table.mem_values_iff.mp (List.mem_filter.mp hmem).1
      obtain ⟨hid, hlt, -⟩ := hm.positions hget
      rwa [hid]
    · obtain ⟨id, hget⟩ := Table.mem_values_iff.mp (List.mem_filter.mp hmem).1
      obtain ⟨-, -, s, hget, -⟩ := hm.positions hget
      exact (hm.stepRuns hget).2.1

theorem allocate (h : m.Mirrors ρ leg m') : m.allocate.Mirrors ρ leg m'.allocate := by
  refine ⟨h.run, h.visits, h.attempts, h.places, h.clock, fun i => ?_⟩
  have hi := h.next (i + 1)
  simp only [Memory.allocate]
  rw [show m.nextId + 1 + (i : Int) = m.nextId + ((i + 1 : Nat) : Int) by omega, hi]
  omega

theorem applyWrite {w : Write} (hρ : Function.Injective ρ) (hm : m.Sound) (hm' : m'.Sound)
    (h : m.Mirrors ρ leg m') (hw : w.On leg m) (hw' : (w.rename ρ).On leg m') :
    (m.applyWrite w).Mirrors ρ leg (m'.applyWrite (w.rename ρ)) := by
  have hclock : (m'.applyWrite (w.rename ρ)).clock = (m.applyWrite w).clock := by
    rw [applyWrite_clock, applyWrite_clock, h.clock]
  have hnext : ∀ i : Nat, ρ ((m.applyWrite w).nextId + i) =
      (m'.applyWrite (w.rename ρ)).nextId + i := by
    intro i
    rw [applyWrite_nextId, applyWrite_nextId, h.next]
  cases hw with
  | @run r c id known =>
    refine ⟨?_, h.visits, h.attempts, h.places, hclock, hnext⟩
    show (m'.runs.insert r.id r).get? leg = (m.runs.insert r.id r).get? leg
    rw [id, Table.get?_insert_self, Table.get?_insert_self]
  | @visit s c run known last given =>
    change Write.On leg m' (.insertStepRun (s.rename ρ)) at hw'
    cases hw' with
    | visit run' known' last' given' =>
      refine ⟨h.run, ?_, ?_, h.places, hclock, hnext⟩
      · show (m'.applyWrite (.insertStepRun (s.rename ρ))).visitsOf leg = _
        rw [visitsOf_insert last, visitsOf_insert last', h.visits]
        simp [run, run']
      · intro id t ht hrun
        simp only [Memory.applyWrite, Table.get?_insert] at ht
        split at ht
        · -- the step run is new, so there are no attempts at it
          cases ht
          subst id
          have hnone : m.attemptsOf s.id = [] := hm.attemptsOf_eq_nil <| by
            cases ht : m.stepRuns.get? s.id with
            | none => rfl
            | some t => exact absurd (last ht) (Int.lt_irrefl _)
          have hnone' : m'.attemptsOf (s.rename ρ).id = [] := hm'.attemptsOf_eq_nil <| by
            cases ht : m'.stepRuns.get? (s.rename ρ).id with
            | none => rfl
            | some t => exact absurd (last' ht) (Int.lt_irrefl _)
          show m'.attemptsOf (s.rename ρ).id = (m.attemptsOf s.id).map _
          rw [hnone, hnone', List.map_nil]
        · exact h.attempts ht hrun
  | @attempt a s known run last given =>
    change Write.On leg m' (.insertAttempt (a.rename ρ)) at hw'
    cases hw' with
    | attempt known' run' last' given' =>
      refine ⟨h.run, h.visits, ?_, h.places, hclock, hnext⟩
      intro id t ht hrun
      show (m'.applyWrite (.insertAttempt (a.rename ρ))).attemptsOf (ρ id) = _
      rw [attemptsOf_insert last, attemptsOf_insert last', h.attempts ht hrun, List.map_append]
      congr 1
      have hsame : (a.rename ρ).stepRun = ρ id ↔ a.stepRun = id := hρ.eq_iff
      by_cases hid : a.stepRun = id
      · simp [hid, hsame.mpr hid]
      · simp [hid, mt hsame.mp hid]
  | @position p s run known same last given =>
    change Write.On leg m' (.insertPosition (p.rename ρ)) at hw'
    cases hw' with
    | position run' known' same' last' given' =>
      refine ⟨h.run, h.visits, h.attempts, ?_, hclock, hnext⟩
      show (m'.applyWrite (.insertPosition (p.rename ρ))).placesOf leg = _
      rw [placesOf_insert last, placesOf_insert last', h.places]
      simp [run, run']
  | @mark id p known run =>
    have known' := h.position hm hm' known run
    have hplaces : (m'.applyWrite (.markBranched (ρ id))).placesOf leg =
        ((m.applyWrite (.markBranched id)).placesOf leg).map (PositionRecord.rename ρ) := by
      rw [placesOf_mark hm, placesOf_mark hm', h.places, List.map_map, List.map_map]
      refine List.map_congr_left fun q _ => ?_
      have hsame : ρ id = (q.rename ρ).id ↔ id = q.id := hρ.eq_iff
      by_cases hid : id = q.id
      · simp [Change.mark, Change.marking, hid, PositionRecord.rename]
      · simp [Change.mark, Change.marking, hid, mt hsame.mp hid]
    simp only [Write.rename, Memory.applyWrite, known, known'] at hplaces hclock hnext ⊢
    exact ⟨h.run, h.visits, h.attempts, hplaces, hclock, hnext⟩

end Mirrors
end CallFlow.Memory
