import CallFlow.Proofs.World.Deployed
import CallFlow.Proofs.World.Engines

/-! # Units of work are atomic

A call either raises the version of its run by one, and is answered as committed, or leaves all
four tables as they were. Preparing an engine is a unit of work only where the run has no history;
elsewhere the store is not touched at all. So the version of a run counts the units of work on it
that were committed.
-/
namespace CallFlow
open Memory Work

namespace Memory

def Raises (m m' : Memory) (run : Int) : Prop :=
  ∃ r r', m.runs.get? run = some r ∧ m'.runs.get? run = some r' ∧ r'.version = r.version + 1

variable {m m' : Memory} {run : Int}

theorem SameLeg.versionOf (h : SameLeg m m' run) : m'.versionOf run = m.versionOf run := by
  rw [Memory.versionOf, h.run, Memory.versionOf]

theorem Raises.versionOf (h : m.Raises m' run) : m'.versionOf run = m.versionOf run + 1 := by
  obtain ⟨r, r', hr, hr', hv⟩ := h
  rw [versionOf_of_get? hr, versionOf_of_get? hr', hv]

theorem SameTables.not_raises (h : SameTables m m') : ¬ m.Raises m' run := by
  intro hraises
  have hv := hraises.versionOf
  rw [(h.sameLeg run).versionOf] at hv
  omega

end Memory

namespace Engine

def Settles (ctx : Context) (e : Engine) (m : Memory) : World.Call → Prop
  | .prepare => m.positionsOf e.run.record.id = [] ∧ Committed ((e.prepare ctx).run m).1
  | .run raw => Committed (e.runStep ctx raw m).1.1

instance (ctx : Context) (e : Engine) (m : Memory) : DecidablePred (e.Settles ctx m)
  | .prepare => inferInstanceAs (Decidable (_ ∧ _))
  | .run _ => inferInstanceAs (Decidable (Committed _))

end Engine

namespace World
variable {registry : Registry} {w : World}

/-- The units of work on a run that an action commits. -/
def units (registry : Registry) (run : Int) (w : World) : Action → Int
  | .call slot c =>
    match w.engine? slot with
    | none => 0
    | some e => if e.run.record.id = run ∧ e.Settles (w.context registry) w.store c then 1 else 0
  | _ => 0

def unitsIn (registry : Registry) (run : Int) : World → List Action → Int
  | _, [] => 0
  | w, a :: rest => w.units registry run a + unitsIn registry run (w.step registry a) rest

namespace Sound
variable {slot : Nat} {e : Engine} (h : w.Sound registry) (he : w.engine? slot = some e)
include h he

/-- A call that runs a step is committed as a whole or not at all. -/
theorem runStep_atomic (raw : Option String) :
    Committed (e.runStep (w.context registry) raw w.store).1.1 ∧
        w.store.Raises (e.runStep (w.context registry) raw w.store).2 e.run.record.id ∨
      ¬ Committed (e.runStep (w.context registry) raw w.store).1.1 ∧
        SameTables w.store (e.runStep (w.context registry) raw w.store).2 := by
  have hadmitted := h.engines he
  rcases Engine.runStep_cases (w.context registry) h.store (h.flows hadmitted.flow) hadmitted raw
    with ⟨hrefused, hgrows⟩ | ⟨answer, x, n, e', p, b, r, hturn, hanswered, hr, -, hrun⟩
  · exact .inr ⟨hrefused, hgrows.tables⟩
  · rw [hrun]
    exact .inl ⟨hanswered.committed, r, _, hr, hturn.stored_run _ _, rfl⟩

/-- Preparing an engine of a run without a history takes the run from version zero to one. -/
theorem prepare_first (hloaded : w.Loaded) (hnone : w.store.positionsOf e.run.record.id = []) :
    ∃ e' m' r r', (e.prepare (w.context registry)).run w.store = (.ok e', m') ∧
      w.store.runs.get? e.run.record.id = some r ∧ r.version = 0 ∧
      m'.runs.get? e.run.record.id = some r' ∧ r'.version = 1 := by
  have hadmitted := h.engines he
  obtain ⟨r, hr, hle⟩ := hadmitted.version
  have hid : r.id = e.run.record.id := (h.store.runs hr).1
  obtain ⟨hzero, -⟩ := hloaded.engines he
  have hunprepared {config : FlowConfig} (htracks : w.store.Tracks registry config r) :
      w.store.Unprepared config r := by
    rcases htracks with hu | ⟨state, p, s, hu⟩
    · exact hu
    · have hlatest : w.store.latestPosition r.id = some p := hu.latest
      rw [latestPosition, hid, hnone] at hlatest
      cases hlatest
  obtain ⟨_, -, htracks⟩ := h.runs hr
  have hv : r.version = 0 := (hunprepared htracks).version
  have hstale : ¬ e.Stale w.store := Engine.not_stale hr (by omega)
  obtain ⟨x, n, e', p, b, hrun, -, -, hturn⟩ := Engine.prepare_opens (w.context registry) h.store
    (h.flows hadmitted.flow) hadmitted hstale hr (hunprepared (h.tracks he hstale hr))
  refine ⟨_, _, r, _, hrun, hr, hv, hturn.stored_run _ _, ?_⟩
  show r.version + 1 = 1
  omega

omit h he in
theorem prepare_reads (ctx : Context) {m : Memory} (hsome : m.positionsOf e.run.record.id ≠ []) :
    ((e.prepare ctx).run m).2 = m := by
  cases hp : m.latestPosition e.run.record.id with
  | none => exact absurd (latestPosition_eq_none_iff.mp hp) hsome
  | some p =>
    rw [Engine.prepare_run_some hp]
    exact (Engine.rehydrate_reads ctx).1

end Sound

/-- A call raises the version of its run by one if it is a unit of work that is committed. -/
theorem Sound.versionOf_call {slot : Nat} {e : Engine} (h : w.Sound registry) (hloaded : w.Loaded)
    (he : w.engine? slot = some e) (c : Call) :
    (e.call (w.context registry) w.store c).2.versionOf e.run.record.id =
      w.store.versionOf e.run.record.id +
        if e.Settles (w.context registry) w.store c then 1 else 0 := by
  cases c with
  | run raw =>
    show (e.runStep (w.context registry) raw w.store).2.versionOf _ = _
    rcases h.runStep_atomic he raw with ⟨hcommitted, hraises⟩ | ⟨hrefused, hsame⟩
    · have hsettles : e.Settles (w.context registry) w.store (.run raw) := hcommitted
      rw [if_pos hsettles, hraises.versionOf]
    · have hsettles : ¬ e.Settles (w.context registry) w.store (.run raw) := hrefused
      rw [if_neg hsettles, (hsame.sameLeg _).versionOf, Int.add_zero]
  | prepare =>
    rw [Engine.call_store]
    by_cases hnone : w.store.positionsOf e.run.record.id = []
    · obtain ⟨e', m', r, r', hrun, hr, hv, hr', hv'⟩ := h.prepare_first he hloaded hnone
      have hsettles : e.Settles (w.context registry) w.store .prepare := by
        refine ⟨hnone, ?_⟩
        rw [hrun]
        trivial
      rw [if_pos hsettles, hrun, versionOf_of_get? hr, versionOf_of_get? hr', hv, hv']
      rfl
    · rw [if_neg fun hsettles => hnone hsettles.1, prepare_reads _ hnone, Int.add_zero]

theorem Sound.versionOf_call_other {slot : Nat} {e : Engine} (h : w.Sound registry)
    (he : w.engine? slot = some e) (c : Call) {id : Int} (hid : e.run.record.id ≠ id) :
    (e.call (w.context registry) w.store c).2.versionOf id = w.store.versionOf id := by
  have hcalled := h.call_called he c
  generalize e.call (w.context registry) w.store c = y at hcalled
  cases hcalled with
  | refused grows => exact (grows.tables.sameLeg id).versionOf
  | read => rfl
  | @turned x n e' p b r turn stored version =>
    exact (sameLeg_post (r := e'.stored (r.version + 1) w.store.clock) h.store turn.fits
      turn.same.id hid.symm).versionOf

theorem versionOf_createRun (h : w.Sound registry) (tag : String) (id : Int) :
    ((createRun (w.context registry) tag).run w.store).2.versionOf id = w.store.versionOf id := by
  rcases createRun_cases (w.context registry) tag w.store with hrun | ⟨config, b, -, -, hrun⟩
  · rw [hrun]
  · rw [hrun]
    by_cases hid : id = w.store.nextId
    · subst hid
      rw [versionOf_of_none (h.store.runs_fresh (Int.le_refl _))]
      exact versionOf_of_get? (r := b.newRun tag w.store) (Table.get?_insert_self _ _ _)
    · have hleg : SameLeg w.store (w.store.created (b.newRun tag w.store)) id :=
        sameLeg_created hid
      exact hleg.versionOf

/-- An action raises the version of a run by the units of work on it that it commits. -/
theorem Sound.versionOf_step (h : w.Sound registry) (hloaded : w.Loaded) (a : Action) (id : Int) :
    (w.step registry a).store.versionOf id = w.store.versionOf id + w.units registry id a := by
  cases a with
  | publish config =>
    simp only [World.step, units, Int.add_zero]
    split <;> rfl
  | provide | tick => exact (Int.add_zero _).symm
  | createRun tag => exact (versionOf_createRun h tag id).trans (Int.add_zero _).symm
  | createEngine run =>
    obtain ⟨hstore, -⟩ := Engine.create_reads (w.context registry) run w.store
    simp only [World.step, units, Int.add_zero]
    rcases hrun : (Engine.create (w.context registry) run).run w.store with ⟨failure | e, m⟩ <;>
      rw [hrun] at hstore <;> rw [← hstore]
  | call slot c =>
    cases he : w.engine? slot with
    | none => simp only [World.step, units, he, Int.add_zero]
    | some e =>
      simp only [World.step, units, he]
      by_cases hid : e.run.record.id = id
      · subst hid
        simp only [true_and]
        exact h.versionOf_call hloaded he c
      · simp only [hid, false_and, if_false, Int.add_zero]
        exact h.versionOf_call_other he c hid

theorem Sound.versionOf_after (h : w.Sound registry) (hloaded : w.Loaded) (actions : List Action)
    (id : Int) : (w.after registry actions).store.versionOf id =
      w.store.versionOf id + unitsIn registry id w actions := by
  induction actions generalizing w with
  | nil => exact (Int.add_zero _).symm
  | cons a rest ih =>
    have hlater := ih (h.step a) (hloaded.step h a)
    rw [h.versionOf_step hloaded a id] at hlater
    simp only [after, List.foldl_cons, unitsIn] at hlater ⊢
    omega

/-- A call raises the version of its run by one where it is committed, and leaves all tables as they
were where it is not. So the version is the number of units of work that were committed. -/
theorem units_of_work_atomic (registry : Registry) :
    (∀ {w : World} {slot : Nat} {e : Engine}, Reachable registry w → w.engine? slot = some e →
      (∀ raw, (Committed (e.runStep (w.context registry) raw w.store).1.1 ↔
          w.store.Raises (e.runStep (w.context registry) raw w.store).2 e.run.record.id) ∧
        (¬ Committed (e.runStep (w.context registry) raw w.store).1.1 →
          SameTables w.store (e.runStep (w.context registry) raw w.store).2)) ∧
      (w.store.positionsOf e.run.record.id = [] →
        ∃ e' m' r r', (e.prepare (w.context registry)).run w.store = (.ok e', m') ∧
          w.store.runs.get? e.run.record.id = some r ∧ r.version = 0 ∧
          m'.runs.get? e.run.record.id = some r' ∧ r'.version = 1) ∧
      (w.store.positionsOf e.run.record.id ≠ [] →
        ((e.prepare (w.context registry)).run w.store).2 = w.store)) ∧
    ∀ {actions : List Action} {id : Int} {r : RunRecord},
      (empty.after registry actions).store.runs.get? id = some r →
        r.version = unitsIn registry id empty actions := by
  constructor
  · intro w slot e hw he
    refine ⟨fun raw => ?_, hw.sound.prepare_first he hw.loaded, fun hsome =>
      Sound.prepare_reads _ hsome⟩
    rcases hw.sound.runStep_atomic he raw with ⟨hcommitted, hraises⟩ | ⟨hrefused, hsame⟩
    · exact ⟨iff_of_true hcommitted hraises, fun hrefused => absurd hcommitted hrefused⟩
    · exact ⟨iff_of_false hrefused hsame.not_raises, fun _ => hsame⟩
  · intro actions id r hr
    have hafter := (sound_empty registry).versionOf_after loaded_empty actions id
    rw [versionOf_of_get? hr] at hafter
    rw [hafter]
    exact Int.zero_add _

/-- The greeting is the second unit of work on its run, after the one that entered it. -/
theorem units_of_work_atomic_reception : ∃ (actions : List Action) (e : Engine) (r : RunRecord),
    Reception.greeted = empty.after .builtins actions ∧ unitsIn .builtins 1 empty actions = 2 ∧
    Reception.opened.engine? 0 = some e ∧
    Reception.opened.store.Raises
      (e.runStep (Reception.opened.context .builtins) none Reception.opened.store).2 1 ∧
    Reception.greeted.store.runs.get? 1 = some r ∧ r.version = 2 := by
  let actions := deploying Reception.flow 1 ++ [.call 0 .prepare] ++ [.call 0 (.run none)]
  have hgreeted : Reception.greeted = empty.after .builtins actions := by
    rw [after_concat, after_concat, after_deploying rfl rfl 1]
    rfl
  have hstored : (Reception.greeted.store.runs.get? 1).map (·.version) = some 2 := by
    decide +kernel
  obtain ⟨r, hr, hversion⟩ := Option.map_eq_some_iff.mp hstored
  have hunits : r.version = unitsIn .builtins 1 empty actions :=
    (units_of_work_atomic .builtins).2 (hgreeted ▸ hr)
  obtain ⟨e, he, hid, hcommitted⟩ : ∃ e, Reception.opened.engine? 0 = some e ∧
      e.run.record.id = 1 ∧ Committed
        (e.runStep (Reception.opened.context .builtins) none Reception.opened.store).1.1 :=
    ⟨_, rfl, rfl, trivial⟩
  have hraises :=
    ((((units_of_work_atomic .builtins).1 Reception.reachable_opened he).1 none).1.mp hcommitted)
  exact ⟨actions, e, r, hgreeted, hunits ▸ hversion, he, hid ▸ hraises, hr, hversion⟩

end World
end CallFlow
