import CallFlow.Proofs.Store.Sound
import Mathlib.Data.List.Induction

/-! # Writes applied one after the other

A commit applies its writes in the order in which they were staged. What a snapshot knows of a
record is what the store would hold once the staged writes are applied, so the checks of a commit
can be read off the store that it leads to.
-/
namespace CallFlow

namespace Write

def row? (id : Int) : Write → Option RunRecord
  | insertRun r | updateRun r => if r.id = id then some r else none
  | _ => none

def stepRun? (id : Int) : Write → Option StepRunRecord
  | insertStepRun s => if s.id = id then some s else none
  | _ => none

def attempt? (id : Int) : Write → Option AttemptRecord
  | insertAttempt a => if a.id = id then some a else none
  | _ => none

theorem version?_eq (id : Int) (w : Write) : w.version? id = (w.row? id).map (·.version) := by
  cases w with
  | insertRun r | updateRun r =>
    simp only [version?, row?]
    split <;> rfl
  | _ => rfl

end Write

def Snapshot.row? (s : Snapshot) (id : Int) : Option RunRecord :=
  s.writes.reverse.findSome? (·.row? id)

theorem Snapshot.version?_eq (s : Snapshot) (id : Int) :
    s.version? id = (s.row? id).map (·.version) := by
  simp only [version?, row?, List.map_findSome?]
  congr 1
  funext w
  exact w.version?_eq id

namespace Memory
variable {m : Memory} {ws : List Write}

/-! ## One write -/

@[simp] theorem applyWrite_nextId (m : Memory) (w : Write) : (m.applyWrite w).nextId = m.nextId := by
  cases w with
  | markBranched id =>
    simp only [applyWrite]
    split <;> rfl
  | _ => rfl

@[simp] theorem applyWrite_clock (m : Memory) (w : Write) : (m.applyWrite w).clock = m.clock := by
  cases w with
  | markBranched id =>
    simp only [applyWrite]
    split <;> rfl
  | _ => rfl

theorem applyWrite_runs (m : Memory) (w : Write) (id : Int) :
    (m.applyWrite w).runs.get? id = (w.row? id).or (m.runs.get? id) := by
  cases w with
  | insertRun r | updateRun r =>
    simp only [applyWrite, Table.get?_insert, Write.row?, eq_comm (a := id)]
    split <;> rfl
  | markBranched i =>
    simp only [applyWrite]
    split <;> rfl
  | _ => rfl

theorem applyWrite_stepRuns (m : Memory) (w : Write) (id : Int) :
    (m.applyWrite w).stepRuns.get? id = (w.stepRun? id).or (m.stepRuns.get? id) := by
  cases w with
  | insertStepRun s =>
    simp only [applyWrite, Table.get?_insert, Write.stepRun?, eq_comm (a := id)]
    split <;> rfl
  | markBranched i =>
    simp only [applyWrite]
    split <;> rfl
  | _ => rfl

theorem applyWrite_attempts (m : Memory) (w : Write) (id : Int) :
    (m.applyWrite w).attempts.get? id = (w.attempt? id).or (m.attempts.get? id) := by
  cases w with
  | insertAttempt a =>
    simp only [applyWrite, Table.get?_insert, Write.attempt?, eq_comm (a := id)]
    split <;> rfl
  | markBranched i =>
    simp only [applyWrite]
    split <;> rfl
  | _ => rfl

theorem insertPosition_get? (m : Memory) (p : PositionRecord) (id : Int) :
    (m.applyWrite (.insertPosition p)).positions.get? id =
      if id = p.id then some p else m.positions.get? id :=
  Table.get?_insert _ _ _ _

theorem markBranched_get? (m : Memory) (i id : Int) :
    (m.applyWrite (.markBranched i)).positions.get? id =
      (m.positions.get? id).map fun p => if id = i then { p with branchedOnError := true } else p := by
  simp only [applyWrite]
  cases hp : m.positions.get? i with
  | none =>
    by_cases hid : id = i
    · simp [hid, hp]
    · simp [hid]
  | some p =>
    by_cases hid : id = i
    · simp [hid, hp]
    · simp [hid, Table.get?_insert]

theorem applyWrite_positions {w : Write} (hp : ∀ p, w ≠ .insertPosition p)
    (hmark : ∀ id, w ≠ .markBranched id) : (m.applyWrite w).positions = m.positions := by
  cases w with
  | insertPosition p => exact absurd rfl (hp p)
  | markBranched id => exact absurd rfl (hmark id)
  | _ => rfl

/-! ## Writes in a row -/

theorem foldl_applyWrite_concat (m : Memory) (ws : List Write) (w : Write) :
    (ws ++ [w]).foldl applyWrite m = (ws.foldl applyWrite m).applyWrite w :=
  List.foldl_append

@[simp] theorem foldl_applyWrite_nextId (m : Memory) (ws : List Write) :
    (ws.foldl applyWrite m).nextId = m.nextId := by
  induction ws generalizing m with
  | nil => rfl
  | cons w rest ih => rw [List.foldl_cons, ih, applyWrite_nextId]

@[simp] theorem foldl_applyWrite_clock (m : Memory) (ws : List Write) :
    (ws.foldl applyWrite m).clock = m.clock := by
  induction ws generalizing m with
  | nil => rfl
  | cons w rest ih => rw [List.foldl_cons, ih, applyWrite_clock]

/-- A run shows the last row that was written, or else the one that it had. -/
theorem foldl_applyWrite_runs (m : Memory) (ws : List Write) (id : Int) :
    (ws.foldl applyWrite m).runs.get? id = ((⟨ws⟩ : Snapshot).row? id).or (m.runs.get? id) := by
  induction ws using List.reverseRecOn with
  | nil => rfl
  | append_singleton ws w ih =>
    simp only [Snapshot.row?] at ih
    simp only [foldl_applyWrite_concat, applyWrite_runs, ih, Snapshot.row?, List.reverse_append,
      List.reverse_singleton, List.singleton_append, List.findSome?_cons]
    cases w.row? id <;> rfl

/-! ## What a snapshot knows -/

theorem version?_eq (m : Memory) (ws : List Write) (id : Int) :
    m.version? ⟨ws⟩ id = ((ws.foldl applyWrite m).runs.get? id).map (·.version) := by
  rw [foldl_applyWrite_runs, version?, Snapshot.version?_eq, Option.map_or]

theorem knowsRun_eq (m : Memory) (ws : List Write) (id : Int) :
    m.knowsRun ⟨ws⟩ id = ((ws.foldl applyWrite m).runs.get? id).isSome := by
  rw [foldl_applyWrite_runs, knowsRun, Snapshot.version?_eq, Option.isSome_map, Option.isSome_or,
    Table.contains_eq_isSome]

theorem knowsStepRun_eq (m : Memory) (ws : List Write) (id : Int) :
    m.knowsStepRun ⟨ws⟩ id = ((ws.foldl applyWrite m).stepRuns.get? id).isSome := by
  induction ws using List.reverseRecOn with
  | nil => simp [knowsStepRun, Snapshot.hasStepRun, Table.contains_eq_isSome]
  | append_singleton ws w ih =>
    rw [foldl_applyWrite_concat, applyWrite_stepRuns, Option.isSome_or, ← ih]
    have hlast : (w.stepRun? id).isSome = (⟨[w]⟩ : Snapshot).hasStepRun id := by
      cases w with
      | insertStepRun s => by_cases hid : s.id = id <;> simp [Write.stepRun?, Snapshot.hasStepRun, hid]
      | _ => rfl
    simp only [hlast, knowsStepRun, Snapshot.hasStepRun, List.any_append]
    rw [Bool.or_comm (List.any ws _), Bool.or_assoc]

theorem knowsPosition_eq (m : Memory) (ws : List Write) (id : Int) :
    m.knowsPosition ⟨ws⟩ id = ((ws.foldl applyWrite m).positions.get? id).isSome := by
  induction ws using List.reverseRecOn with
  | nil => simp [knowsPosition, Snapshot.hasPosition, Table.contains_eq_isSome]
  | append_singleton ws w ih =>
    have hlast : m.knowsPosition ⟨ws ++ [w]⟩ id =
        ((⟨[w]⟩ : Snapshot).hasPosition id || m.knowsPosition ⟨ws⟩ id) := by
      simp only [knowsPosition, Snapshot.hasPosition, List.any_append]
      rw [Bool.or_comm (List.any ws _), Bool.or_assoc]
    rw [hlast, ih, foldl_applyWrite_concat]
    cases w with
    | insertPosition p =>
      rw [insertPosition_get?]
      by_cases hid : p.id = id <;> simp [Snapshot.hasPosition, hid, eq_comm (a := id)]
    | markBranched i =>
      rw [markBranched_get?, Option.isSome_map]
      rfl
    | _ => rfl

theorem knowsStepRun_of_applied {id : Int} {s : StepRunRecord}
    (h : (ws.foldl applyWrite m).stepRuns.get? id = some s) : m.knowsStepRun ⟨ws⟩ id = true := by
  rw [knowsStepRun_eq, h, Option.isSome_some]

theorem knowsPosition_of_applied {id : Int} {p : PositionRecord}
    (h : (ws.foldl applyWrite m).positions.get? id = some p) :
    m.knowsPosition ⟨ws⟩ id = true := by
  rw [knowsPosition_eq, h, Option.isSome_some]

theorem hasOrder_iff {run order : Int} :
    m.hasOrder run order = true ↔
      ∃ id p, m.positions.get? id = some p ∧ p.run = run ∧ p.order = order := by
  simp only [hasOrder, List.any_eq_true, Table.mem_values_iff, Bool.and_eq_true, decide_eq_true_eq]
  constructor
  · rintro ⟨p, ⟨id, hp⟩, hrun, horder⟩
    exact ⟨id, p, hp, hrun, horder⟩
  · rintro ⟨id, p, hp, hrun, horder⟩
    exact ⟨p, ⟨id, hp⟩, hrun, horder⟩

/-! ## The checks of a commit -/

/-- The writes are checked in turn, each against those before it. -/
theorem checkWrites_append (m : Memory) (before : Snapshot) (ws vs : List Write) :
    m.checkWrites before (ws ++ vs) =
      match m.checkWrites before ws with
      | .ok () => m.checkWrites ⟨before.writes ++ ws⟩ vs
      | .error e => .error e := by
  induction ws generalizing before with
  | nil => simp only [List.nil_append, checkWrites, List.append_nil]
  | cons w rest ih =>
    simp only [List.cons_append, checkWrites]
    cases m.checkWrite before w with
    | error e => rfl
    | ok u =>
      simp only [ih, Snapshot.stage, List.append_assoc, List.singleton_append]

theorem checkWrites_concat {before : Snapshot} {w : Write} :
    m.checkWrites before (ws ++ [w]) = .ok () ↔
      m.checkWrites before ws = .ok () ∧ m.checkWrite ⟨before.writes ++ ws⟩ w = .ok () := by
  rw [checkWrites_append]
  cases m.checkWrites before ws with
  | error e => simp
  | ok u =>
    simp only [checkWrites, true_and]
    cases m.checkWrite ⟨before.writes ++ ws⟩ w <;> simp

theorem checkWrite_allocate (m : Memory) (s : Snapshot) (w : Write) :
    m.allocate.checkWrite s w = m.checkWrite s w := by
  cases w <;> rfl

theorem checkWrites_allocate (m : Memory) (s : Snapshot) (ws : List Write) :
    m.allocate.checkWrites s ws = m.checkWrites s ws := by
  induction ws generalizing s with
  | nil => rfl
  | cons w rest ih => simp only [checkWrites, checkWrite_allocate, ih]

end Memory
end CallFlow
