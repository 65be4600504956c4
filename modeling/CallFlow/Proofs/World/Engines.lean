import CallFlow.Proofs.World.Sound

/-! # The engines of a world

After an action an engine is in use because it was before, because a call left it there, or
because it was created. So an engine keeps the tag that its run was created with, and it holds one
of the versions that are counted from zero.
-/
namespace CallFlow
open Memory

namespace World
variable {registry : Registry} {w w' : World}

inductive Comes (registry : Registry) (w : World) (a : Action) (slot : Nat) (e' : Engine) : Prop
  | kept (used : w.engine? slot = some e')
  | called {e} (used : w.engine? slot = some e)
      (called : e.Called (w.context registry) w.store (some e', (w.step registry a).store))
  | created (stored : w.store.runs.get? e'.run.record.id = some e'.run.record)

theorem Sound.comes (h : w.Sound registry) (a : Action) {slot : Nat} {e' : Engine}
    (he : (w.step registry a).engine? slot = some e') : Comes registry w a slot e' := by
  cases a with
  | provide | tick | createRun => exact .kept he
  | publish config =>
    refine .kept ?_
    simp only [World.step] at he
    split at he <;> exact he
  | createEngine run =>
    obtain ⟨-, hcreated⟩ := Engine.create_reads (w.context registry) run w.store
    simp only [World.step] at he
    rcases hrun : (Engine.create (w.context registry) run).run w.store with ⟨failure | e, m⟩ <;>
      rw [hrun] at he hcreated
    · exact .kept he
    · rcases mem_engines_append he with rfl | hold
      · obtain ⟨r, hr, rfl, -⟩ := hcreated e rfl
        refine .created ?_
        rw [(h.store.runs hr).1, hr]
      · exact .kept hold
  | call other c =>
    cases hused : w.engine? other with
    | none =>
      simp only [World.step, hused] at he
      exact .kept he
    | some e =>
      have hcalled := h.call_called hused c
      have hstore : (w.step registry (.call other c)).store =
          (e.call (w.context registry) w.store c).2 := by
        simp only [World.step, hused]
      simp only [World.step, hused] at he
      rcases mem_engines_set he with ⟨rfl, heq⟩ | hold
      · refine .called hused ?_
        rw [hstore, ← heq]
        exact hcalled
      · exact .kept hold

/-- The run after an action: the same one, perhaps at a later version. -/
theorem Sound.run_step (h : w.Sound registry) (a : Action) {id : Int} {r : RunRecord}
    (hr : w.store.runs.get? id = some r) :
    ∃ r', (w.step registry a).store.runs.get? id = some r' ∧ r'.configTag = r.configTag ∧
      r.version ≤ r'.version := by
  have hadvances := h.advances a
  generalize (w.step registry a).store = m at hadvances
  cases hadvances with
  | quiet tables => exact ⟨r, by rw [tables.runs, hr], rfl, Int.le_refl _⟩
  | created =>
    have hlt := (h.store.runs hr).2
    exact ⟨r, (sameLeg_created (Int.ne_of_lt hlt)).run.trans hr, rfl, Int.le_refl _⟩
  | @turned slot e x n e' p b u used turn stored version =>
    by_cases hid : id = e.run.record.id
    · subst hid
      obtain rfl : u = r := Option.some.inj (stored.symm.trans hr)
      have hcurrent := ((h.engines used).current (Engine.not_stale stored version)).1
      have htag : e.run.record.configTag = u.configTag := by rw [hcurrent.record_eq stored]
      refine ⟨_, turn.stored_run _ _, turn.same.configTag.trans htag, ?_⟩
      show u.version ≤ u.version + 1
      omega
    · have hleg := sameLeg_post (r := e'.stored (u.version + 1) w.store.clock) h.store
        turn.fits turn.same.id hid
      exact ⟨r, hleg.run.trans hr, rfl, Int.le_refl _⟩

theorem Sound.run_new (h : w.Sound registry) (a : Action) {id : Int} {r : RunRecord}
    (hnew : w.store.runs.get? id = none)
    (hr : (w.step registry a).store.runs.get? id = some r) : r.version = 0 := by
  have hadvances := h.advances a
  generalize (w.step registry a).store = m at hadvances hr
  cases hadvances with
  | quiet tables =>
    rw [tables.runs, hnew] at hr
    cases hr
  | @created tag config b flow first =>
    by_cases hid : id = w.store.nextId
    · subst hid
      obtain rfl := Option.some.inj ((Table.get?_insert_self _ _ _).symm.trans hr)
      rfl
    · have hleg : SameLeg w.store (w.store.created (b.newRun tag w.store)) id :=
        sameLeg_created hid
      rw [hleg.run, hnew] at hr
      cases hr
  | @turned slot e x n e' p b u used turn stored version =>
    have hid : id ≠ e.run.record.id := by
      rintro rfl
      rw [hnew] at stored
      cases stored
    have hleg := sameLeg_post (r := e'.stored (u.version + 1) w.store.clock) h.store turn.fits
      turn.same.id hid
    rw [hleg.run, hnew] at hr
    cases hr

structure Loaded (w : World) : Prop where
  runs : ∀ {id r}, w.store.runs.get? id = some r → 0 ≤ r.version
  engines : ∀ {slot e}, w.engine? slot = some e → 0 ≤ e.run.record.version ∧
    ∃ r, w.store.runs.get? e.run.record.id = some r ∧ r.configTag = e.run.record.configTag

namespace Loaded
variable (hw : w.Sound registry) (h : w.Loaded) (a : Action)
include hw h

theorem run_step {id : Int} {r : RunRecord}
    (hr : (w.step registry a).store.runs.get? id = some r) : 0 ≤ r.version := by
  cases hold : w.store.runs.get? id with
  | some u =>
    obtain ⟨r', hr', -, hle⟩ := hw.run_step a hold
    obtain rfl : r' = r := Option.some.inj (hr'.symm.trans hr)
    exact Int.le_trans (h.runs hold) hle
  | none => exact Int.le_of_eq (hw.run_new a hold hr).symm

theorem step : (w.step registry a).Loaded := by
  refine ⟨h.run_step hw a, fun he => ?_⟩
  -- the run of an engine keeps its tag
  have hkept {id : Int} {tag : String}
      (hr : ∃ r, w.store.runs.get? id = some r ∧ r.configTag = tag) :
      ∃ r, (w.step registry a).store.runs.get? id = some r ∧ r.configTag = tag := by
    obtain ⟨r, hr, rfl⟩ := hr
    obtain ⟨r', hr', htag, -⟩ := hw.run_step a hr
    exact ⟨r', hr', htag⟩
  cases hw.comes a he with
  | kept used => exact ⟨(h.engines used).1, hkept (h.engines used).2⟩
  | created stored => exact ⟨h.runs stored, hkept ⟨_, stored, rfl⟩⟩
  | @called e used called =>
    obtain ⟨hversion, hrun⟩ := h.engines used
    generalize (w.step registry a).store = m at called hkept
    cases called with
    | read same =>
      rw [same.id, same.version, same.configTag]
      exact ⟨hversion, hrun⟩
    | @turned x n e' p b r turn stored version =>
      have hid : (e'.atVersion (r.version + 1)).run.record.id = e.run.record.id := turn.same.id
      rw [hid]
      refine ⟨?_, _, turn.stored_run _ _, rfl⟩
      have hzero := h.runs stored
      show 0 ≤ r.version + 1
      omega

end Loaded

theorem loaded_empty : empty.Loaded := by
  constructor <;> intro _ _ h <;> cases h

theorem Reachable.loaded (h : Reachable registry w) : w.Loaded := by
  induction h with
  | refl => exact loaded_empty
  | step a hr ih => exact ih.step (Reachable.sound hr) a

end World
end CallFlow
