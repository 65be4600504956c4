import CallFlow.Proofs.Engine.Raced
import CallFlow.Proofs.Store.Admitted
import CallFlow.Proofs.World.Terminal

/-! # Calls that were overtaken

Once another engine of its run has committed, an engine is behind. It is placed nowhere yet, or
at a position and a step that the store has, and these may be later ones than the state in which
it holds the run. A call of it is told that the run was modified where it gets as far as the step.
Where the state that the engine holds does not go with the step, the call is told of the state
instead, as if the run had come to an end.
-/
namespace CallFlow
open Memory Work

namespace Memory

theorem retains_post {m : Memory} {x : Change} {n run : Int} {r : RunRecord} (hm : m.Sound)
    (hx : x.Fits m n run) : m.Retains (m.post x n r) := by
  constructor
  · intro id u hu
    rw [post_runs, Table.get?_insert]
    split
    · exact ⟨r, rfl⟩
    · exact ⟨u, hu⟩
  · exact fun hs => (post_stepRuns_get? hm hx).mpr (.inl hs)
  · exact fun ha => (post_attempts_get? hm hx).mpr (.inl ha)
  · intro id p hp
    refine ⟨x.mark p, (post_positions_get? hm hx).mpr (.inl ⟨p, hp, rfl⟩), ?_⟩
    unfold Change.mark
    split
    · exact .marked
    · exact .kept

theorem retains_created {m : Memory} {r : RunRecord} : m.Retains (m.created r) := by
  refine ⟨fun {id u} hu => ?_, id, id, fun hp => ⟨_, hp, .kept⟩⟩
  show ∃ u', (m.runs.insert r.id r).get? id = some u'
  rw [Table.get?_insert]
  split
  · exact ⟨r, rfl⟩
  · exact ⟨u, hu⟩

end Memory

namespace Engine
variable {registry : Registry} {flows : FlowSource} {m m' : Memory} {e : Engine}
variable {p : PositionRecord} {b : BoundStep}

theorem Placed.retains (h : e.Placed registry m p b) (hk : m.Retains m') :
    e.Placed registry m' p b := by
  obtain ⟨q, hq⟩ := Table.exists_get?_of_contains h.known
  obtain ⟨q', hq', -⟩ := hk.positions hq
  obtain ⟨s, hs⟩ := Table.exists_get?_of_contains h.stepRun
  exact ⟨h.position, Table.contains_of_get? hq', h.ready, h.step,
    Table.contains_of_get? (hk.stepRuns hs)⟩

/-- What others commit does not move an engine that is behind. -/
theorem Behind.retains (h : e.Behind registry m) (hk : m.Retains m') : e.Behind registry m' := by
  refine ⟨h.branch, h.settled, h.unended, h.place.imp id ?_⟩
  rintro ⟨p, b, hplaced⟩
  exact ⟨p, b, hplaced.retains hk⟩

theorem Seated.placed (hm : m.Sound) (h : e.Seated registry m p b)
    (hunended : e.run.state ≠ .finished ∧ e.run.state ≠ .error) : e.Placed registry m p b := by
  obtain ⟨-, -, hget⟩ := h.underway.current_run hm
  have hknown := hm.position_get? (latestPosition_mem h.underway.latest)
  exact ⟨h.position, Table.contains_of_get? hknown, h.holds.ready hunended.1 hunended.2, h.step,
    Table.contains_of_get? hget⟩

theorem Seated.takesUp (hw : e.config.tree.WellFormed registry) (h : e.Seated registry m p b)
    (hunended : e.run.state ≠ .finished ∧ e.run.state ≠ .error) : e.TakesUp b := by
  refine ⟨h.holds.current, ?_⟩
  cases hs : e.run.state with
  | uninitialized => exact absurd hs h.underway.settled.1
  | processingInput => exact absurd hs h.underway.settled.2
  | finished => exact absurd hs hunended.1
  | error => exact absurd hs hunended.2
  | initialized => exact .inl rfl
  | stepInProgress => exact .inr (.inl rfl)
  | requestingUserInput => exact .inr (.inr ⟨rfl, h.prompted hw hs⟩)

/-- An engine that holds its run as the store does is where an engine may be once it was
overtaken, unless its run has come to an end. -/
theorem Admitted.behind {r : RunRecord} (hm : m.Sound) (h : e.Admitted registry flows m)
    (hstale : ¬ e.Stale m) (hr : m.runs.get? e.run.record.id = some r)
    (htracks : m.Tracks registry e.config r) (hunended : ¬ e.run.state.Over) :
    e.Behind registry m := by
  obtain ⟨hcurrent, hplace⟩ := h.current hstale
  have hunended : e.run.state ≠ .finished ∧ e.run.state ≠ .error := not_or.mp hunended
  have hseats : e.Waiting ∨ ∃ p b, e.Placed registry m p b := by
    refine hplace.imp id ?_
    rintro ⟨p, b, hseated⟩
    exact ⟨p, b, hseated.placed hm hunended⟩
  rcases hcurrent.tracks hr htracks with ⟨hu, hstate, hbranch⟩ | ⟨p, s, hu⟩
  · obtain ⟨br, hfirst, hname⟩ := hu.branch
    refine ⟨?_, by simp [hstate], hunended, hseats⟩
    rw [hbranch, hname]
    exact List.mem_map_of_mem (StepTree.firstBranch_mem hfirst)
  · obtain ⟨hrun, -, hget⟩ := hu.current_run hm
    obtain ⟨step, ⟨br, hbr, t, -, hbuilt⟩, hvisits⟩ := hu.recorded.built hget hrun
    refine ⟨?_, hu.settled.2, hunended, hseats⟩
    rw [hu.branch, hvisits.branch, hbuilt.branch]
    exact List.mem_map_of_mem hbr

end Engine

namespace World
variable {registry : Registry} {w w' : World} {slot : Nat} {e e' : Engine} {r : RunRecord}

namespace Sound
variable (h : w.Sound registry)
include h

/-- No action takes a row away. -/
theorem retains (a : Action) : w.store.Retains (w.step registry a).store := by
  have hadvances := h.advances a
  generalize (w.step registry a).store = m at hadvances
  cases hadvances with
  | quiet tables => exact tables.retains
  | created => exact retains_created
  | turned used turn => exact retains_post h.store turn.fits

theorem tracks_loaded (hloaded : w.Loaded) (he : w.engine? slot = some e)
    (hr : w.store.runs.get? e.run.record.id = some r) :
    w.store.Tracks registry e.config r := by
  obtain ⟨config, hconfig, htracks⟩ := h.runs hr
  obtain ⟨-, c, hc, htag⟩ := hloaded.engines he
  obtain rfl : c = r := Option.some.inj (hc.symm.trans hr)
  have hflow := (h.engines he).flow
  rw [← htag, hconfig] at hflow
  obtain rfl := Except.ok.inj hflow
  exact htracks

theorem not_stale_of_over (he : w.engine? slot = some e) (hstale : ¬ e.Stale w.store)
    (hover : e.run.state.Over) (hreaches : Reaches registry w w') : ¬ e.Stale w'.store := by
  obtain ⟨c, hc, hv⟩ := Engine.exists_of_not_stale hstale
  have hid : c.id = e.run.record.id := (h.store.runs hc).1
  have hstate := ((h.engines he).current hstale).1.state_eq hc
  obtain ⟨hleg, -⟩ := h.over_reaches (hid ▸ hc) hstate hover hreaches
  refine Engine.not_stale (r := c) ?_ hv
  rw [← hid, hleg.run, hid, hc]

/-- Preparing an engine that was overtaken places it where the run stands now. -/
theorem prepare_stale (hloaded : w.Loaded) (he : w.engine? slot = some e)
    (hstale : e.Stale w.store) :
    ∃ p b, (e.prepare (w.context registry)).run w.store =
        (.ok { e with stepEngine := .holding b .ready, position := some p }, w.store) ∧
      Engine.Placed registry w.store
        { e with stepEngine := .holding b .ready, position := some p } p b := by
  obtain ⟨c, hc, hle⟩ := (h.engines he).version
  have hid : c.id = e.run.record.id := (h.store.runs hc).1
  have hnew : 0 < c.version := by
    have hzero := (hloaded.engines he).1
    have hne := hstale c hc
    omega
  rcases h.tracks_loaded hloaded he hc with hu | ⟨state, p, s, hu⟩
  · -- a run that was only created is at version zero
    have hversion := hu.version
    omega
  · obtain ⟨-, -, hget⟩ := hu.current_run h.store
    obtain ⟨step, hprepare, hstep, -⟩ := Engine.prepare_placed (w.context registry) h.store
      (h.flows (h.engines he).flow) hid.symm hu
    have hknown := h.store.position_get? (latestPosition_mem hu.latest)
    exact ⟨p, _, hprepare, rfl, Table.contains_of_get? hknown, rfl, hstep,
      Table.contains_of_get? hget⟩

/-- An engine that does not hold its run as the store does was there before, or a call was left
with it. -/
theorem comes_stale (a : Action) (he : (w.step registry a).engine? slot = some e')
    (hstale : e'.Stale (w.step registry a).store) :
    (∃ slot, w.engine? slot = some e') ∨ ∃ slot e c, w.engine? slot = some e ∧
      e.call (w.context registry) w.store c = (some e', (w.step registry a).store) := by
  cases a with
  | provide | tick | createRun => exact .inl ⟨slot, he⟩
  | publish config =>
    refine .inl ⟨slot, ?_⟩
    simp only [World.step] at he
    split at he <;> exact he
  | createEngine run =>
    obtain ⟨hstore, hcreated⟩ := Engine.create_reads (w.context registry) run w.store
    simp only [World.step] at he hstale
    rcases hrun : (Engine.create (w.context registry) run).run w.store with ⟨failure | e, m⟩ <;>
      rw [hrun] at he hstore hcreated hstale <;> obtain rfl : w.store = m := hstore.symm
    · exact .inl ⟨slot, he⟩
    · rcases mem_engines_append he with rfl | hold
      · obtain ⟨r, hr, rfl, -⟩ := hcreated e rfl
        have hstored : w.store.runs.get? e.run.record.id = some e.run.record := by
          rw [(h.store.runs hr).1, hr]
        exact absurd hstale (Engine.not_stale hstored rfl)
      · exact .inl ⟨slot, hold⟩
  | call other c =>
    cases hused : w.engine? other with
    | none =>
      simp only [World.step, hused] at he
      exact .inl ⟨slot, he⟩
    | some e =>
      have hstore : (w.step registry (.call other c)).store =
          (e.call (w.context registry) w.store c).2 := by
        simp only [World.step, hused]
      simp only [World.step, hused] at he
      rcases mem_engines_set he with ⟨-, heq⟩ | hold
      · refine .inr ⟨other, e, c, hused, ?_⟩
        rw [hstore, ← heq]
      · exact .inl ⟨slot, hold⟩

theorem call_stale (he : w.engine? slot = some e) {c : Call} {m : Memory}
    (hcall : e.call (w.context registry) w.store c = (some e', m)) (hstale : e'.Stale m) :
    e.Stale w.store := by
  have hcalled := h.call_called he c
  rw [hcall] at hcalled
  cases hcalled with
  | read same => exact same.stale_iff.mp hstale
  | @turned x n e'' p b r turn stored version =>
    have hstored := turn.stored_run (r.version + 1) w.store.clock
    rw [← turn.same.id] at hstored
    exact absurd hstale (Engine.not_stale hstored rfl)

end Sound

def Behind (registry : Registry) (w : World) : Prop :=
  ∀ slot e, w.engine? slot = some e → e.Stale w.store → e.Behind registry w.store

namespace Behind
variable (hw : w.Sound registry) (hloaded : w.Loaded) (h : w.Behind registry)
include hw hloaded h

/-- A call that leaves an overtaken engine in use has prepared it. -/
theorem called {c : Call} {m : Memory} (he : w.engine? slot = some e) (hstale : e.Stale w.store)
    (hcall : e.call (w.context registry) w.store c = (some e', m)) :
    e'.Behind registry w.store := by
  cases c with
  | prepare =>
    obtain ⟨p, b, hprepare, hplaced⟩ := hw.prepare_stale hloaded he hstale
    simp only [Engine.call, hprepare] at hcall
    obtain rfl := Option.some.inj (congrArg Prod.fst hcall)
    have hbehind := h slot e he hstale
    exact ⟨hbehind.branch, hbehind.settled, hbehind.unended, .inr ⟨p, b, hplaced⟩⟩
  | run raw =>
    obtain ⟨hrefused, -⟩ := run_stale (StagesOnly.callStep (w.context registry) raw) hstale
    have hnone := congrArg Prod.fst hcall
    simp only [Engine.call, Engine.runStep, Engine.kept_of_not_committed hrefused] at hnone
    cases hnone

theorem step (a : Action) : (w.step registry a).Behind registry := by
  intro slot e he hstale
  have hk := hw.retains a
  rcases hw.comes_stale a he hstale with ⟨slot, used⟩ | ⟨slot, e₀, c, used, hcall⟩
  · by_cases hold : e.Stale w.store
    · exact (h slot e used hold).retains hk
    · have hunended : ¬ e.run.state.Over := fun hover =>
        hw.not_stale_of_over used hold hover (.step a .refl) hstale
      obtain ⟨c, hc, -⟩ := Engine.exists_of_not_stale hold
      exact ((hw.engines used).behind hw.store hold hc (hw.tracks used hold hc) hunended).retains hk
  · have hold := hw.call_stale used hcall hstale
    exact (h.called hw hloaded used hold hcall).retains hk

end Behind

theorem Reachable.behind (h : Reachable registry w) : w.Behind registry := by
  induction h with
  | refl => exact fun slot e he => by cases he
  | step a hr ih => exact ih.step (Reachable.sound hr) (Reachable.loaded hr) a

/-- An engine that was seated before it was overtaken still holds its run in a state that goes
with its step. -/
theorem Sound.takesUp (h : w.Sound registry) (he : w.engine? slot = some e)
    (hstale : ¬ e.Stale w.store) (hplaced : ¬ e.Waiting) (hreaches : Reaches registry w w')
    (hstale' : e.Stale w'.store) : ∃ b, e.TakesUp b := by
  obtain ⟨-, hwaiting | ⟨p, b, hseated⟩⟩ := (h.engines he).current hstale
  · exact absurd hwaiting hplaced
  · have hunended : ¬ e.run.state.Over := fun hover =>
      h.not_stale_of_over he hstale hover hreaches hstale'
    exact ⟨b, hseated.takesUp (h.flows (h.engines he).flow) (not_or.mp hunended)⟩

/-- A call by an overtaken engine fails and changes nothing. It is told that the run was modified
exactly where it gets as far as its step and the step does not ask for what it cannot be given. -/
theorem raced_call_told (h : Reachable registry w) (he : w.engine? slot = some e)
    (hr : w.store.runs.get? e.run.record.id = some r) (hv : e.run.record.version < r.version)
    (raw : Option String) :
    (∃ failure, (e.runStep (w.context registry) raw w.store).1.1 = .error failure ∧
      SameTables w.store (e.runStep (w.context registry) raw w.store).2 ∧
      e.Overtaken (w.context registry) raw failure ∧
      (failure = .concurrentModification e.run.record.id ↔
        (∃ b, e.TakesUp b) ∧ ∀ x cause, e.execution? (w.context registry) raw = some x →
          ¬ e.Impossible (w.context registry) x.outcome cause)) ∧
    ∀ w₀ slot₀, Reachable registry w₀ → Reaches registry w₀ w → w₀.engine? slot₀ = some e →
      ¬ e.Stale w₀.store → ¬ e.Waiting → ∃ b, e.TakesUp b := by
  have hsound := h.sound
  have hstale := Engine.stale_of_lt hr hv
  have htracks := hsound.tracks_loaded h.loaded he hr
  constructor
  · obtain ⟨failure, htold, hovertaken⟩ := (h.behind slot e he hstale).told
      (w.context registry) hsound.store (hsound.flows (hsound.engines he).flow)
      (htracks.recorded hsound.store hr) hr (hstale r hr) raw
    obtain ⟨-, hgrows⟩ := run_stale (StagesOnly.callStep (w.context registry) raw) hstale
    exact ⟨failure, htold, hgrows.tables, hovertaken, hovertaken.raced_iff⟩
  · exact fun w₀ slot₀ h₀ hreaches he₀ hold hplaced =>
      h₀.sound.takesUp he₀ hold hplaced hreaches hstale

/-- Both engines that the first one has overtaken stand where the caller is asked for the account.
The second one is told that the run has nothing to run, the third one that it was modified. -/
theorem raced_call_told_reception : ∃ (w : World) (e e' : Engine) (version : Int),
    w = Reception.joined.after .builtins
      [.call 2 .prepare, .call 0 (.run none), .call 1 .prepare] ∧
    (∃ r, w.store.runs.get? 1 = some r ∧ r.version = version) ∧
    w.engine? 1 = some e ∧ e.run.record.id = 1 ∧ e.run.record.version < version ∧
    w.engine? 2 = some e' ∧ e'.run.record.id = 1 ∧ e'.run.record.version < version ∧
    (e.runStep (w.context .builtins) none w.store).1.1 =
      .error (.notRunnable .uninitialized) ∧
    (e'.runStep (w.context .builtins) none w.store).1.1 =
      .error (.concurrentModification 1) := by
  let w := Reception.joined.after .builtins
    [.call 2 .prepare, .call 0 (.run none), .call 1 .prepare]
  have h : Reachable .builtins w := Reception.reachable_joined.trans (reaches_iff.mpr ⟨_, rfl⟩)
  have hstored : (w.store.runs.get? 1).map (·.version) = some 3 := by decide +kernel
  obtain ⟨r, hr, hversion⟩ := Option.map_eq_some_iff.mp hstored
  have hsecond : (w.engine? 1).map (fun e => (e.run.record.id, e.run.record.version, e.run.state,
      e.stepEngine.current?.isSome)) = some (1, 0, .uninitialized, true) := by decide +kernel
  have hthird : (w.engine? 2).map (fun e => (e.run.record.id, e.run.record.version, e.run.state,
      e.stepEngine.current?.isSome)) = some (1, 2, .stepInProgress, true) := by decide +kernel
  have hwaits : (w.engine? 2).all fun e => (e.execution? (w.context .builtins) none).isNone := by
    decide +kernel
  obtain ⟨e, he, hfacts⟩ := Option.map_eq_some_iff.mp hsecond
  obtain ⟨e', he', hfacts'⟩ := Option.map_eq_some_iff.mp hthird
  obtain ⟨hid, hv, hstate, hplaced⟩ : e.run.record.id = 1 ∧ e.run.record.version = 0 ∧
      e.run.state = .uninitialized ∧ e.stepEngine.current?.isSome = true := by
    simpa using hfacts
  obtain ⟨hid', hv', hstate', hplaced'⟩ : e'.run.record.id = 1 ∧ e'.run.record.version = 2 ∧
      e'.run.state = .stepInProgress ∧ e'.stepEngine.current?.isSome = true := by
    simpa using hfacts'
  refine ⟨w, e, e', r.version, rfl, ⟨r, hr, rfl⟩, he, hid, by omega, he', hid', by omega, ?_, ?_⟩
  · obtain ⟨⟨failure, htold, -, hovertaken, -⟩, -⟩ :=
      raced_call_told h he (hid ▸ hr) (by omega) none
    have hnot (b : BoundStep) (htakes : e.TakesUp b) : False := by
      simpa [hstate] using htakes.state
    cases hovertaken with
    | raced takesUp => exact (hnot _ takesUp).elim
    | impossible takesUp => exact (hnot _ takesUp).elim
    | waiting waiting =>
      rw [waiting.1] at hplaced
      cases hplaced
    | unbegun => exact htold
    | unasked _ state =>
      rw [hstate] at state
      cases state
  · obtain ⟨⟨failure, htold, -, -, hraced⟩, -⟩ :=
      raced_call_told h he' (hid' ▸ hr) (by omega) none
    obtain ⟨b, hb⟩ := Option.isSome_iff_exists.mp hplaced'
    have hnone : e'.execution? (w.context .builtins) none = none := by simpa [he'] using hwaits
    rw [htold, hraced.mpr ⟨⟨b, hb, .inr (.inl hstate')⟩, fun x cause hx => ?_⟩, hid']
    rw [hnone] at hx
    cases hx

end World
end CallFlow
