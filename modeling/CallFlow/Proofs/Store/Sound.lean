import CallFlow.Proofs.Store.Tables
import CallFlow.Store.Memory

/-! # Sound stores

In a sound store every record is kept under its own id, every id was given out before, and
every reference leads to a record. Whatever is listed for a run or a step run is then exactly
what the tables hold for it. What is listed only depends on the tables, and not on the counter
of ids or on the clock.
-/
namespace CallFlow.Memory

structure Sound (m : Memory) : Prop where
  runs : ∀ {id r}, m.runs.get? id = some r → r.id = id ∧ id < m.nextId
  stepRuns : ∀ {id s}, m.stepRuns.get? id = some s →
    s.id = id ∧ id < m.nextId ∧ ∃ r, m.runs.get? s.run = some r
  attempts : ∀ {id a}, m.attempts.get? id = some a →
    a.id = id ∧ id < m.nextId ∧ ∃ s, m.stepRuns.get? a.stepRun = some s
  positions : ∀ {id p}, m.positions.get? id = some p →
    p.id = id ∧ id < m.nextId ∧ ∃ s, m.stepRuns.get? p.stepRun = some s ∧ s.run = p.run

theorem sound_empty : empty.Sound := by
  constructor <;> intro id _ h <;> simp [empty] at h

structure SameTables (m m' : Memory) : Prop where
  runs : m'.runs = m.runs
  stepRuns : m'.stepRuns = m.stepRuns
  attempts : m'.attempts = m.attempts
  positions : m'.positions = m.positions

theorem SameTables.refl (m : Memory) : SameTables m m := ⟨rfl, rfl, rfl, rfl⟩

theorem SameTables.trans {m₁ m₂ m₃ : Memory} (h : SameTables m₁ m₂) (h' : SameTables m₂ m₃) :
    SameTables m₁ m₃ :=
  ⟨h'.runs.trans h.runs, h'.stepRuns.trans h.stepRuns, h'.attempts.trans h.attempts,
    h'.positions.trans h.positions⟩

def visitsOf (m : Memory) (run : Int) : List StepRunRecord :=
  m.stepRuns.values.filter (·.run = run)

def placesOf (m : Memory) (run : Int) : List PositionRecord :=
  m.positions.values.filter (·.run = run)

theorem positionsOf_eq (m : Memory) (run : Int) :
    m.positionsOf run = (m.placesOf run).foldr placeByOrder [] := rfl

def attemptsIn (m : Memory) (run : Int) : List AttemptRecord :=
  m.attempts.values.filter fun a => (m.stepRuns.get? a.stepRun).any (·.run = run)

/-- The version that a run is stored with, zero where there is no such run. -/
def versionOf (m : Memory) (run : Int) : Int := ((m.runs.get? run).map (·.version)).getD 0

theorem versionOf_of_get? {m : Memory} {run : Int} {r : RunRecord}
    (h : m.runs.get? run = some r) : m.versionOf run = r.version := by
  simp only [versionOf, h, Option.map_some, Option.getD_some]

theorem versionOf_of_none {m : Memory} {run : Int} (h : m.runs.get? run = none) :
    m.versionOf run = 0 := by
  simp only [versionOf, h, Option.map_none, Option.getD_none]

namespace SameTables
variable {m m' : Memory} (h : SameTables m m')
include h

theorem placesOf (run : Int) : m'.placesOf run = m.placesOf run := by
  simp only [Memory.placesOf, h.positions]

theorem positionsOf (run : Int) : m'.positionsOf run = m.positionsOf run := by
  simp only [positionsOf_eq, h.placesOf]

theorem attemptsOf (stepRun : Int) : m'.attemptsOf stepRun = m.attemptsOf stepRun := by
  simp only [Memory.attemptsOf, h.attempts]

theorem visitsOf (run : Int) : m'.visitsOf run = m.visitsOf run := by
  simp only [Memory.visitsOf, h.stepRuns]

theorem attemptsIn (run : Int) : m'.attemptsIn run = m.attemptsIn run := by
  simp only [Memory.attemptsIn, h.attempts, h.stepRuns]

theorem sound (hn : m.nextId ≤ m'.nextId) (hm : m.Sound) : m'.Sound := by
  constructor
  · intro id r hr
    rw [h.runs] at hr
    obtain ⟨hid, hlt⟩ := hm.runs hr
    exact ⟨hid, by omega⟩
  · intro id s hs
    rw [h.stepRuns] at hs
    obtain ⟨hid, hlt, hr⟩ := hm.stepRuns hs
    exact ⟨hid, by omega, h.runs ▸ hr⟩
  · intro id a ha
    rw [h.attempts] at ha
    obtain ⟨hid, hlt, hs⟩ := hm.attempts ha
    exact ⟨hid, by omega, h.stepRuns ▸ hs⟩
  · intro id p hp
    rw [h.positions] at hp
    obtain ⟨hid, hlt, hs⟩ := hm.positions hp
    exact ⟨hid, by omega, h.stepRuns ▸ hs⟩

end SameTables

/-! ## Listings -/

theorem mem_placeByOrder {p q : PositionRecord} {ps : List PositionRecord} :
    q ∈ placeByOrder p ps ↔ q = p ∨ q ∈ ps := by
  induction ps with
  | nil => simp [placeByOrder]
  | cons r rest ih =>
    simp only [placeByOrder]
    split
    · simp
    · simp only [List.mem_cons, ih]
      exact or_left_comm

theorem mem_foldr_placeByOrder {q : PositionRecord} {ps : List PositionRecord} :
    q ∈ ps.foldr placeByOrder [] ↔ q ∈ ps := by
  induction ps with
  | nil => simp
  | cons p rest ih => simp only [List.foldr_cons, mem_placeByOrder, ih, List.mem_cons]

theorem mem_positionsOf {m : Memory} {run : Int} {p : PositionRecord} :
    p ∈ m.positionsOf run ↔ (∃ id, m.positions.get? id = some p) ∧ p.run = run := by
  simp [positionsOf, mem_foldr_placeByOrder, Table.mem_values_iff]

theorem mem_attemptsOf {m : Memory} {stepRun : Int} {a : AttemptRecord} :
    a ∈ m.attemptsOf stepRun ↔ (∃ id, m.attempts.get? id = some a) ∧ a.stepRun = stepRun := by
  simp [attemptsOf, Table.mem_values_iff]

theorem findStepRun_eq (m : Memory) (run : Int) (branch name : String) :
    m.findStepRun run branch name =
      ((m.visitsOf run).filter fun s => s.branch = branch && s.name = name).getLast? := by
  simp only [findStepRun, visitsOf, List.filter_filter, Bool.and_comm, Bool.and_left_comm]

theorem latestPosition_mem {m : Memory} {run : Int} {p : PositionRecord}
    (h : m.latestPosition run = some p) : p ∈ m.positionsOf run :=
  List.mem_of_getLast? h

theorem latestPosition_eq_none_iff {m : Memory} {run : Int} :
    m.latestPosition run = none ↔ m.positionsOf run = [] := by
  simp [latestPosition]

namespace Sound
variable {m : Memory} (h : m.Sound)
include h

theorem attemptsOf_eq_nil {stepRun : Int} (hs : m.stepRuns.get? stepRun = none) :
    m.attemptsOf stepRun = [] := by
  apply List.eq_nil_iff_forall_not_mem.mpr
  intro a ha
  obtain ⟨⟨id, hget⟩, rfl⟩ := mem_attemptsOf.mp ha
  obtain ⟨-, -, s, hs'⟩ := h.attempts hget
  simp [hs] at hs'

theorem stepRuns_fresh {id : Int} (hid : m.nextId ≤ id) : m.stepRuns.get? id = none := by
  cases hs : m.stepRuns.get? id with
  | none => rfl
  | some s =>
    have hlt := (h.stepRuns hs).2.1
    omega

theorem runs_fresh {id : Int} (hid : m.nextId ≤ id) : m.runs.get? id = none := by
  cases hr : m.runs.get? id with
  | none => rfl
  | some r =>
    have hlt := (h.runs hr).2
    omega

theorem attempts_fresh {id : Int} (hid : m.nextId ≤ id) : m.attempts.get? id = none := by
  cases ha : m.attempts.get? id with
  | none => rfl
  | some a =>
    have hlt := (h.attempts ha).2.1
    omega

theorem mem_stepRuns_iff {s : StepRunRecord} :
    s ∈ m.stepRuns.values ↔ m.stepRuns.get? s.id = some s := by
  rw [Table.mem_values_iff]
  constructor
  · rintro ⟨id, hs⟩
    rwa [(h.stepRuns hs).1]
  · exact fun hs => ⟨_, hs⟩

theorem findStepRun {run : Int} {branch name : String} {s : StepRunRecord}
    (hs : m.findStepRun run branch name = some s) :
    m.stepRuns.get? s.id = some s ∧ s.run = run ∧ s.branch = branch ∧ s.name = name := by
  obtain ⟨hmem, hs⟩ := List.mem_filter.mp (List.mem_of_getLast? hs)
  simp only [Bool.and_eq_true, decide_eq_true_eq] at hs
  exact ⟨h.mem_stepRuns_iff.mp hmem, hs.1.1, hs.1.2, hs.2⟩

theorem joined {run : Int} {p : PositionRecord} (hp : p ∈ m.positionsOf run) :
    ∃ s, m.stepRuns.get? p.stepRun = some s ∧ s.run = run ∧ s.id = p.stepRun := by
  obtain ⟨⟨id, hget⟩, rfl⟩ := mem_positionsOf.mp hp
  obtain ⟨-, -, s, hs, hrun⟩ := h.positions hget
  exact ⟨s, hs, hrun, (h.stepRuns hs).1⟩

theorem position_get? {run : Int} {p : PositionRecord} (hp : p ∈ m.positionsOf run) :
    m.positions.get? p.id = some p := by
  obtain ⟨⟨id, hget⟩, -⟩ := mem_positionsOf.mp hp
  rwa [(h.positions hget).1]

end Sound
end CallFlow.Memory
