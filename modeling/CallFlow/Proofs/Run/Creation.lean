import CallFlow.Proofs.Engine.Moves
import CallFlow.Proofs.Run.History

/-! # New runs

A run is created in the first branch of its flow, with nothing recorded for it. All other runs
are left alone, and a run that cannot be created leaves the store alone.
-/
namespace CallFlow
open Memory Work

namespace Memory

def created (m : Memory) (r : RunRecord) : Memory :=
  { m with runs := m.runs.insert r.id r, nextId := m.nextId + 1 }

variable {m : Memory} {r : RunRecord} (hm : m.Sound) (hr : r.id = m.nextId)
include hm hr

omit hm hr in
theorem sameLeg_created {leg : Int} (hne : leg ≠ r.id) : SameLeg m (m.created r) leg :=
  ⟨Table.get?_insert_of_ne _ hne _, rfl, fun _ => Iff.rfl, fun _ _ => rfl, rfl, rfl⟩

theorem Sound.created : (m.created r).Sound := by
  have hrun : ∀ {id u}, m.runs.get? id = some u → ∃ u, (m.created r).runs.get? id = some u := by
    intro id u hu
    by_cases hid : id = r.id
    · exact ⟨r, hid ▸ Table.get?_insert_self _ _ _⟩
    · exact ⟨u, (Table.get?_insert_of_ne _ hid _).trans hu⟩
  have hnext : (m.created r).nextId = m.nextId + 1 := rfl
  constructor
  · intro id u hu
    by_cases hid : id = r.id
    · subst hid
      obtain rfl : r = u := Option.some.inj ((Table.get?_insert_self _ _ _).symm.trans hu)
      exact ⟨rfl, by omega⟩
    · obtain ⟨hu, hlt⟩ := hm.runs ((Table.get?_insert_of_ne _ hid _).symm.trans hu)
      exact ⟨hu, by omega⟩
  · intro id s hs
    obtain ⟨hid, hlt, u, hu⟩ := hm.stepRuns hs
    exact ⟨hid, by omega, hrun hu⟩
  · intro id a ha
    obtain ⟨hid, hlt, hs⟩ := hm.attempts ha
    exact ⟨hid, by omega, hs⟩
  · intro id p hp
    obtain ⟨hid, hlt, hs⟩ := hm.positions hp
    exact ⟨hid, by omega, hs⟩

theorem unprepared_created {config : FlowConfig} {b : Branch}
    (hs : r.state = RunState.uninitialized.name) (hv : r.version = 0)
    (hb : config.tree.firstBranch = .ok b) (hrb : r.branch = b.name) :
    (m.created r).Unprepared config r := by
  have hfresh : m.runs.get? r.id = none := hm.runs_fresh (by omega)
  refine ⟨hs, hv, ?_, ?_, b, hb, hrb⟩
  · apply List.eq_nil_iff_forall_not_mem.mpr
    intro p hp
    obtain ⟨s, hget, hrun, -⟩ := hm.joined hp
    obtain ⟨-, -, u, hu⟩ := hm.stepRuns hget
    rw [hrun, hfresh] at hu
    cases hu
  · intro id s hget hrun
    obtain ⟨-, -, u, hu⟩ := hm.stepRuns hget
    rw [hrun, hfresh] at hu
    cases hu

end Memory

section CreateRun
variable {ctx : Context} {m : Memory} {tag : String}

def Branch.newRun (b : Branch) (tag : String) (m : Memory) : RunRecord :=
  ⟨m.nextId, tag, RunState.uninitialized.name, b.name, .empty, 0, m.clock, m.clock⟩

theorem createRun_run {config : FlowConfig} {b : Branch} (hf : ctx.flows tag = .ok config)
    (hb : config.tree.firstBranch = .ok b) :
    (createRun ctx tag).run m = (.ok m.nextId, m.created (b.newRun tag m)) := by
  have hflow : (Effect.ofExcept ((ctx.flows tag).mapError EngineError.config) :
      Effect Memory _ _).run m = (.ok config, m) := by
    rw [hf]
    rfl
  have hbranch : (Effect.ofExcept (config.tree.firstBranch.mapError EngineError.config) :
      Effect Memory _ _).run m = (.ok b, m) := by
    rw [hb]
    rfl
  refine (Effect.bind_of_ok hflow).trans ?_
  exact Effect.bind_of_ok hbranch

/-- A run is created in the first branch of its flow, or the store is left alone. -/
theorem createRun_cases (ctx : Context) (tag : String) (m : Memory) :
    ((createRun ctx tag).run m).2 = m ∨
      ∃ config b, ctx.flows tag = .ok config ∧ config.tree.firstBranch = .ok b ∧
        (createRun ctx tag).run m = (.ok m.nextId, m.created (b.newRun tag m)) := by
  cases hf : ctx.flows tag with
  | error failure =>
    have hflow : (Effect.ofExcept ((ctx.flows tag).mapError EngineError.config) :
        Effect Memory _ _).run m = (.error (.config failure), m) := by
      rw [hf]
      rfl
    exact .inl (congrArg Prod.snd (Effect.bind_of_error hflow))
  | ok config =>
    cases hb : config.tree.firstBranch with
    | error failure =>
      have hflow : (Effect.ofExcept ((ctx.flows tag).mapError EngineError.config) :
          Effect Memory _ _).run m = (.ok config, m) := by
        rw [hf]
        rfl
      have hbranch : (Effect.ofExcept (config.tree.firstBranch.mapError EngineError.config) :
          Effect Memory _ _).run m = (.error (.config failure), m) := by
        rw [hb]
        rfl
      have hrun : (createRun ctx tag).run m = (.error (.config failure), m) :=
        (Effect.bind_of_ok hflow).trans (Effect.bind_of_error hbranch)
      rw [hrun]
      exact .inl rfl
    | ok b => exact .inr ⟨config, b, rfl, hb, createRun_run hf hb⟩

end CreateRun
end CallFlow
