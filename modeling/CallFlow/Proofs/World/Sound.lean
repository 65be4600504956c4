import CallFlow.Proofs.Run.Creation
import CallFlow.Proofs.World.Call

/-! # Sound worlds

In every reachable world the store is sound, every published flow is well-formed, every run is
tracked in the flow it was created with, and every engine in use may be so.
-/
namespace CallFlow
open Memory Work

/-- A run is tracked whatever happens to the other ones. -/
theorem Memory.Tracks.sameLeg {m m' : Memory} {registry : Registry} {config : FlowConfig}
    {r : RunRecord} (hm : m.Sound) (h : m.Tracks registry config r) (hs : SameLeg m m' r.id) :
    m'.Tracks registry config r := by
  rcases h with h | ⟨state, p, s, h⟩
  · exact .inl (h.sameLeg hs)
  · exact .inr ⟨state, p, s, h.sameLeg hm hs⟩

theorem Memory.Tracks.recorded {m : Memory} {registry : Registry} {config : FlowConfig}
    {r : RunRecord} {run : Int} (hm : m.Sound) (hr : m.runs.get? run = some r)
    (h : m.Tracks registry config r) : m.Recorded registry config run := by
  rw [← (hm.runs hr).1]
  rcases h with h | ⟨state, p, s, h⟩
  · exact h.recorded registry
  · exact h.recorded

namespace Engine
variable {registry : Registry} {flows flows' : FlowSource} {m m' : Memory} {e : Engine}

theorem Admitted.sameLeg (hm : m.Sound) (h : e.Admitted registry flows m)
    (hf : ∀ {tag config}, flows tag = .ok config → flows' tag = .ok config)
    (hs : SameLeg m m' e.run.record.id) : e.Admitted registry flows' m' := by
  refine ⟨hf h.flow, hs.run ▸ h.version, fun hstale => ?_⟩
  have hstale : ¬ e.Stale m := by
    intro hold
    refine hstale fun c hc => ?_
    rw [hs.run] at hc
    exact hold c hc
  obtain ⟨hcurrent, hplace⟩ := h.current hstale
  refine ⟨hcurrent.sameLeg hs, hplace.imp id ?_⟩
  rintro ⟨p, b, hseated⟩
  exact ⟨p, b, hseated.sameLeg hm hs⟩

/-- An engine whose run got a later version stays in use, but nothing will come of it. -/
theorem Admitted.overtaken {r : RunRecord} (h : e.Admitted registry flows m)
    (hr : m'.runs.get? e.run.record.id = some r) (hv : e.run.record.version < r.version) :
    e.Admitted registry flows m' := by
  exact ⟨h.flow, ⟨r, hr, Int.le_of_lt hv⟩, fun hstale => absurd (stale_of_lt hr hv) hstale⟩

end Engine

namespace World

structure Sound (registry : Registry) (w : World) : Prop where
  store : w.store.Sound
  flows : w.catalog.Valid registry
  runs : ∀ {id r}, w.store.runs.get? id = some r →
    ∃ config, w.catalog.resolve r.configTag = .ok config ∧ w.store.Tracks registry config r
  engines : ∀ {slot e}, w.engine? slot = some e →
    e.Admitted registry w.catalog.resolve w.store

theorem sound_empty (registry : Registry) : empty.Sound registry := by
  refine ⟨Memory.sound_empty, Catalog.valid_empty registry, fun h => ?_, fun h => ?_⟩
  · cases h
  · cases h

namespace Sound
variable {registry : Registry} {w w' : World} (h : w.Sound registry)
include h

theorem of_sameTables (ht : SameTables w.store w'.store) (hn : w.store.nextId ≤ w'.store.nextId)
    (hc : w.catalog.Extends w'.catalog) (hv : w'.catalog.Valid registry)
    (he : ∀ {slot e}, w'.engine? slot = some e →
      (∃ slot, w.engine? slot = some e) ∨ e.Admitted registry w'.catalog.resolve w'.store) :
    w'.Sound registry := by
  refine ⟨ht.sound hn h.store, hv, ?_, ?_⟩
  · intro id r hr
    rw [ht.runs] at hr
    obtain ⟨config, hconfig, htracks⟩ := h.runs hr
    exact ⟨config, hc hconfig, htracks.sameLeg h.store (ht.sameLeg _)⟩
  · intro slot e hslot
    rcases he hslot with ⟨slot, hold⟩ | hnew
    · exact (h.engines hold).sameLeg h.store hc (ht.sameLeg _)
    · exact hnew

theorem tracks {slot : Nat} {e : Engine} (he : w.engine? slot = some e) {r : RunRecord}
    (hstale : ¬ e.Stale w.store) (hr : w.store.runs.get? e.run.record.id = some r) :
    w.store.Tracks registry e.config r := by
  obtain ⟨config, hconfig, htracks⟩ := h.runs hr
  have htag : e.run.record.configTag = r.configTag := by
    rw [((h.engines he).current hstale).1.record_eq hr]
  have hflow := (h.engines he).flow
  rw [htag, hconfig] at hflow
  cases hflow
  exact htracks

theorem underway {id : Int} {r : RunRecord} {state : RunState}
    (hr : w.store.runs.get? id = some r) (hstate : r.state = state.name)
    (hentered : state ≠ .uninitialized) :
    ∃ config p s, w.catalog.resolve r.configTag = .ok config ∧
      w.store.Underway registry config ⟨r, state⟩ p s := by
  obtain ⟨config, hconfig, hu | ⟨state', p, s, hu⟩⟩ := h.runs hr
  · exact absurd (RunState.name_inj (hstate.symm.trans hu.state)) hentered
  · obtain rfl : state' = state := RunState.name_inj (hu.named.symm.trans hstate)
    exact ⟨config, p, s, hconfig, hu⟩

section Turn
variable {slot : Nat} {e e' : Engine} {x : Change} {n : Int} {p : PositionRecord} {b : BoundStep}
variable {r : RunRecord} (he : w.engine? slot = some e)
  (hturn : e.Turn registry w.store x n e' p b)
  (hr : w.store.runs.get? e.run.record.id = some r) (hv : r.version = e.run.record.version)
include he hturn hr hv

/-- After a turn the engine is seated where the turn led it. -/
theorem turn_seated : (e'.atVersion (r.version + 1)).Seated registry
    (w.store.post x n (e'.stored (r.version + 1) w.store.clock)) p b := by
  have htracks := h.tracks he (Engine.not_stale hr hv) hr
  exact hturn.seated h.store (htracks.recorded h.store hr) _ _

theorem commit :
    Sound registry { w with
      store := w.store.post x n (e'.stored (r.version + 1) w.store.clock)
      engines := w.engines.set slot (some (e'.atVersion (r.version + 1))) } := by
  have hid : e'.run.record.id = e.run.record.id := hturn.same.id
  have hseated := h.turn_seated he hturn hr hv
  let stored := e'.stored (r.version + 1) w.store.clock
  let m' := w.store.post x n stored
  have hstored : m'.runs.get? e.run.record.id = some stored := hturn.stored_run _ _
  have hflow : w.catalog.resolve stored.configTag = .ok e.config := by
    rw [show stored.configTag = e.run.record.configTag from hturn.same.configTag]
    exact (h.engines he).flow
  refine ⟨h.store.post hturn.fits hid hr, h.flows, ?_, ?_⟩
  · intro id u hu
    by_cases hrun : id = e.run.record.id
    · subst hrun
      obtain rfl : stored = u := Option.some.inj (hstored.symm.trans hu)
      refine ⟨e.config, hflow, .inr ⟨e'.run.state, p, b.stepRun.record, ?_⟩⟩
      have hu := hseated.underway
      rw [show (e'.atVersion (r.version + 1)).config = e.config from hturn.same.config] at hu
      exact ⟨hu.recorded, hu.latest, hu.current, hu.branch, hu.unmarked, rfl, hu.settled,
        hu.prompted, hu.fresh⟩
    · have hleg := sameLeg_post (r := stored) h.store hturn.fits hid hrun
      rw [hleg.run] at hu
      obtain ⟨config, hconfig, htracks⟩ := h.runs hu
      refine ⟨config, hconfig, htracks.sameLeg h.store ?_⟩
      rw [(h.store.runs hu).1]
      exact hleg
  · intro slot' e₂ hslot
    rcases mem_engines_set hslot with ⟨-, heq⟩ | hold
    · obtain rfl := Option.some.inj heq
      refine ⟨?_, ⟨stored, ?_, Int.le_refl _⟩, fun _ => ⟨hseated.held, .inr ⟨p, b, hseated⟩⟩⟩
      · rw [show (e'.atVersion (r.version + 1)).config = e.config from hturn.same.config]
        exact hflow
      · rw [show (e'.atVersion (r.version + 1)).run.record.id = e.run.record.id from hid]
        exact hstored
    · have hold := h.engines hold
      by_cases hrun : e₂.run.record.id = e.run.record.id
      · obtain ⟨u, hu, hle⟩ := hold.version
        rw [hrun, hr] at hu
        cases hu
        refine hold.overtaken (hrun ▸ hstored) ?_
        show e₂.run.record.version < r.version + 1
        omega
      · exact hold.sameLeg h.store id (sameLeg_post (r := stored) h.store hturn.fits hid hrun)

end Turn

theorem called {slot : Nat} {e : Engine} (he : w.engine? slot = some e)
    {y : Option Engine × Memory} (hy : e.Called (w.context registry) w.store y) :
    Sound registry { w with store := y.2, engines := w.engines.set slot y.1 } := by
  cases hy with
  | refused grows =>
    refine h.of_sameTables grows.tables grows.nextId id h.flows fun hslot => .inl ?_
    rcases mem_engines_set hslot with ⟨-, heq⟩ | hold
    · cases heq
    · exact ⟨_, hold⟩
  | read same seated =>
    refine h.of_sameTables (.refl _) (Int.le_refl _) id h.flows fun hslot => ?_
    rcases mem_engines_set hslot with ⟨-, heq⟩ | hold
    · obtain rfl := Option.some.inj heq
      have hadmitted := h.engines he
      refine .inr ⟨?_, ?_, fun hstale => ?_⟩
      · rw [same.configTag, same.config]
        exact hadmitted.flow
      · rw [same.id, same.version]
        exact hadmitted.version
      · obtain ⟨p, b, hseated⟩ := seated (mt same.stale_iff.mpr hstale)
        exact ⟨hseated.held, .inr ⟨p, b, hseated⟩⟩
    · exact .inl ⟨_, hold⟩
  | turned turn stored version => exact h.commit he turn stored version

/-- What a call of an engine in use may do. -/
theorem call_called {slot : Nat} {e : Engine} (he : w.engine? slot = some e) (c : Call) :
    e.Called (w.context registry) w.store (e.call (w.context registry) w.store c) := by
  have hadmitted := h.engines he
  have hw := h.flows hadmitted.flow
  cases c with
  | prepare =>
    by_cases hs : e.Stale w.store
    · exact Engine.prepare_called_stale (w.context registry) hs
    · exact Engine.prepare_called (w.context registry) h.store hw hadmitted
        fun hr => h.tracks he hs hr
  | run raw => exact Engine.run_called (w.context registry) h.store hw hadmitted raw

theorem createRun (tag : String) : (w.step registry (.createRun tag)).Sound registry := by
  simp only [World.step]
  rcases createRun_cases (w.context registry) tag w.store with hrun | ⟨config, b, hf, hb, hrun⟩ <;>
    rw [hrun]
  · exact h
  · let r := b.newRun tag w.store
    have hother {id : Int} {u : RunRecord} (hu : w.store.runs.get? id = some u) : id ≠ r.id := by
      have hlt := (h.store.runs hu).2
      exact Int.ne_of_lt hlt
    refine ⟨h.store.created rfl, h.flows, ?_, ?_⟩
    · intro id u hu
      by_cases hid : id = r.id
      · subst hid
        obtain rfl : r = u := Option.some.inj ((Table.get?_insert_self _ _ _).symm.trans hu)
        exact ⟨config, hf, .inl (unprepared_created h.store rfl rfl rfl hb rfl)⟩
      · have hu : w.store.runs.get? id = some u := (Table.get?_insert_of_ne _ hid _).symm.trans hu
        obtain ⟨config', hconfig, htracks⟩ := h.runs hu
        refine ⟨config', hconfig, htracks.sameLeg h.store (sameLeg_created ?_)⟩
        rw [(h.store.runs hu).1]
        exact hid
    · intro slot e he
      have he := h.engines he
      obtain ⟨u, hu, -⟩ := he.version
      exact he.sameLeg h.store id (sameLeg_created (hother hu))

theorem createEngine (run : Int) : (w.step registry (.createEngine run)).Sound registry := by
  obtain ⟨hstore, hcreated⟩ := Engine.create_reads (w.context registry) run w.store
  simp only [World.step]
  rcases hrun : (Engine.create (w.context registry) run).run w.store with ⟨failure | e, m⟩ <;>
    rw [hrun] at hstore hcreated <;> obtain rfl : w.store = m := hstore.symm
  · exact h
  · refine h.of_sameTables (.refl _) (Int.le_refl _) id h.flows fun hslot => ?_
    rcases mem_engines_append hslot with rfl | hold
    · obtain ⟨r, hr, hsame, hnamed, hflow, hwaiting⟩ := hcreated e rfl
      have hid : r.id = run := (h.store.runs hr).1
      have hstored : w.store.runs.get? e.run.record.id = some r := by rw [hsame, hid, hr]
      refine .inr ⟨hflow, ⟨r, hstored, Int.le_of_eq (by rw [hsame])⟩, fun _ => ⟨?_, .inl hwaiting⟩⟩
      exact ⟨⟨r, hstored, by rw [hsame]⟩, hnamed⟩
    · exact .inl ⟨_, hold⟩

/-- Sound worlds stay sound. -/
theorem step (a : Action) : (w.step registry a).Sound registry := by
  cases a with
  | publish config =>
    simp only [World.step]
    cases hp : w.catalog.publish config registry with
    | error failure => exact h
    | ok published =>
      obtain ⟨tag, catalog⟩ := published
      exact h.of_sameTables (.refl _) (Int.le_refl _) (Catalog.publish_extends hp)
        (Catalog.publish_valid h.flows hp) fun hslot => .inl ⟨_, hslot⟩
  | provide services settings =>
    exact h.of_sameTables (.refl _) (Int.le_refl _) id h.flows fun hslot => .inl ⟨_, hslot⟩
  | tick clock =>
    exact h.of_sameTables ⟨rfl, rfl, rfl, rfl⟩ (Int.le_refl _) id h.flows
      fun hslot => .inl ⟨_, hslot⟩
  | createRun tag => exact h.createRun tag
  | createEngine run => exact h.createEngine run
  | call slot c =>
    simp only [World.step]
    cases he : w.engine? slot with
    | none => exact h
    | some e => exact h.called he (h.call_called he c)

end Sound

inductive Advances (registry : Registry) (w : World) : Memory → Prop
  | quiet {m} (tables : SameTables w.store m) : Advances registry w m
  | created {tag config b} (flow : w.catalog.resolve tag = .ok config)
      (first : config.tree.firstBranch = .ok b) :
      Advances registry w (w.store.created (b.newRun tag w.store))
  | turned {slot e x n e' p b r} (used : w.engine? slot = some e)
      (turn : e.Turn registry w.store x n e' p b)
      (stored : w.store.runs.get? e.run.record.id = some r)
      (version : r.version = e.run.record.version)
      (turned : e.Turned (w.context registry) w.store x n e' p b) :
      Advances registry w (w.store.post x n (e'.stored (r.version + 1) w.store.clock))

theorem Sound.advances {registry : Registry} {w : World} (h : w.Sound registry) (a : Action) :
    w.Advances registry (w.step registry a).store := by
  cases a with
  | publish config =>
    simp only [World.step]
    split <;> exact .quiet (.refl _)
  | provide services settings => exact .quiet (.refl _)
  | tick clock => exact .quiet ⟨rfl, rfl, rfl, rfl⟩
  | createRun tag =>
    simp only [World.step]
    rcases createRun_cases (w.context registry) tag w.store with
      hrun | ⟨config, b, hflow, hfirst, hrun⟩ <;> rw [hrun]
    · exact .quiet (.refl _)
    · exact .created hflow hfirst
  | createEngine run =>
    obtain ⟨hstore, -⟩ := Engine.create_reads (w.context registry) run w.store
    simp only [World.step]
    rcases hrun : (Engine.create (w.context registry) run).run w.store with ⟨failure | e, m⟩ <;>
      rw [hrun] at hstore <;> exact .quiet (hstore ▸ .refl _)
  | call slot c =>
    simp only [World.step]
    cases he : w.engine? slot with
    | none => exact .quiet (.refl _)
    | some e =>
      have hcalled := h.call_called he c
      dsimp only
      rcases hcall : e.call (w.context registry) w.store c with ⟨engine, m⟩
      rw [hcall] at hcalled
      cases hcalled with
      | refused grows => exact .quiet grows.tables
      | read => exact .quiet (.refl _)
      | turned turn stored version turned => exact .turned he turn stored version turned

theorem Reaches.sound {registry : Registry} {w w' : World} (hr : Reaches registry w w')
    (h : w.Sound registry) : w'.Sound registry := by
  induction hr with
  | refl => exact h
  | step a _ ih => exact ih.step a

theorem Reachable.sound {registry : Registry} {w : World} (h : Reachable registry w) :
    w.Sound registry :=
  Reaches.sound h (sound_empty registry)

end World
end CallFlow
