import CallFlow.Proofs.World.Engines
import CallFlow.Proofs.World.Running

/-! # Runs that have come to an end

Whatever is done once a run is finished or given up, by engines from before or by new ones, its
row and all that is recorded for it stay. An engine can still be opened on the run, and nothing is
written for it; it answers every call with the state of the run and executes nothing.
-/
namespace CallFlow
open Memory Work

def RunState.Over (state : RunState) : Prop := state = .finished ∨ state = .error

theorem RunState.Over.entered {state : RunState} (h : state.Over) : state ≠ .uninitialized := by
  rintro rfl
  rcases h with h | h <;> cases h

namespace Engine
variable {ctx : Context} {m : Memory} {e e' : Engine} {x : Change} {n : Int}
variable {p : PositionRecord} {b : BoundStep} {r : RunRecord} {state : RunState}

/-- A call is told the state of the run. Nothing is executed, and nothing is changed. -/
def Declines (ctx : Context) (m : Memory) (e : Engine) (state : RunState) : Prop :=
  ∀ raw, e.execution? ctx raw = none ∧ e.runStep ctx raw m = ((.error (.notRunnable state), e), m)

theorem Seated.declines (h : e.Seated ctx.registry m p b) (hover : e.run.state.Over) :
    e.Declines ctx m e.run.state := by
  intro raw
  constructor
  · cases hx : e.execution? ctx raw with
    | none => rfl
    | some x =>
      obtain ⟨hfinished, herror⟩ := not_over_of_execution hx
      exact (hover.elim hfinished herror).elim
  · have hcall : (callStep ctx raw).run (during m m.nextId .nothing e) =
        (.error (.notRunnable e.run.state), during m m.nextId .nothing e) :=
      (Effect.bind_of_ok (currentStep_run h.holds.current)).trans
        (Effect.bind_of_error (takeUp_run_over _ hover))
    exact run_error hcall id

/-- No call of an engine on a run that is over is a turn. -/
theorem Turned.not_over (h : e.Turned ctx m x n e' p b)
    (hr : m.runs.get? e.run.record.id = some r) (hstate : r.state = state.name) : ¬ state.Over := by
  intro hover
  cases h with
  | opened stored fresh =>
    obtain rfl := Option.some.inj (stored.symm.trans hr)
    obtain rfl := RunState.name_inj (fresh.state.symm.trans hstate)
    rcases hover with hs | hs <;> cases hs
  | @played p₀ b₀ raw answer seated played =>
    obtain rfl : e.run.state = state :=
      RunState.name_inj ((seated.held.state_eq hr).symm.trans hstate)
    cases played with
    | prompted prompts =>
      rcases prompts.state with hs | hs <;> rw [hs] at hover <;> rcases hover with hs | hs <;> cases hs
    | executed executed =>
      obtain ⟨hfinished, herror⟩ := not_over_of_execution executed
      exact hover.elim hfinished herror

end Engine

namespace World
variable {registry : Registry} {w w' : World} {id : Int} {r : RunRecord} {state : RunState}

/-- No action changes a run that is over. -/
theorem Sound.over_step (h : w.Sound registry) (hr : w.store.runs.get? id = some r)
    (hstate : r.state = state.name) (hover : state.Over) (a : Action) :
    SameLeg w.store (w.step registry a).store id := by
  have hadvances := h.advances a
  generalize (w.step registry a).store = m at hadvances
  cases hadvances with
  | quiet tables => exact tables.sameLeg id
  | created => exact sameLeg_created (Int.ne_of_lt (h.store.runs hr).2)
  | @turned slot e x n e' p b u used turn stored version turned =>
    refine sameLeg_post (r := e'.stored (u.version + 1) w.store.clock) h.store turn.fits
      turn.same.id ?_
    rintro rfl
    exact turned.not_over hr hstate hover

def Holders (w : World) (first : Nat) (r : RunRecord) : Prop :=
  ∀ slot e, first ≤ slot → w.engine? slot = some e → e.run.record.id = r.id →
    e.run.record.version = r.version

theorem Sound.holders_step {first : Nat} (h : w.Sound registry)
    (hr : w.store.runs.get? r.id = some r) (hstate : r.state = state.name) (hover : state.Over)
    (hholders : w.Holders first r) (a : Action) : (w.step registry a).Holders first r := by
  intro slot e hslot he hid
  cases h.comes a he with
  | kept used => exact hholders slot e hslot used hid
  | created stored =>
    rw [hid, hr] at stored
    rw [← Option.some.inj stored]
  | @called e₀ used called =>
    generalize (w.step registry a).store = m at called
    cases called with
    | read same =>
      rw [same.version]
      exact hholders slot e₀ hslot used (same.id.symm.trans hid)
    | @turned x n e' p b u turn stored version turned =>
      have hid : e₀.run.record.id = r.id := turn.same.id.symm.trans hid
      exact absurd hover (turned.not_over (hid ▸ hr) hstate)

/-- Nothing that is done changes a run that is over, and an engine that was created since it is
over holds it as it is. -/
theorem Sound.over_reaches (h : w.Sound registry) (hr : w.store.runs.get? r.id = some r)
    (hstate : r.state = state.name) (hover : state.Over) (hreaches : Reaches registry w w') :
    SameLeg w.store w'.store r.id ∧ w'.Holders w.engines.length r := by
  induction hreaches with
  | refl =>
    refine ⟨.refl _ _, fun slot e hslot he => ?_⟩
    unfold engine? at he
    rw [List.getElem?_eq_none hslot] at he
    cases he
  | @step w' a hreaches ih =>
    obtain ⟨hleg, hholders⟩ := ih
    have hsound := hreaches.sound h
    have hr' : w'.store.runs.get? r.id = some r := hleg.run.trans hr
    exact ⟨hleg.trans (hsound.over_step hr' hstate hover a),
      hsound.holders_step hr' hstate hover hholders a⟩

theorem Sound.declines (h : w.Sound registry) (hr : w.store.runs.get? id = some r)
    (hstate : r.state = state.name) (hover : state.Over) {slot : Nat} {e : Engine}
    (he : w.engine? slot = some e) (hid : e.run.record.id = id) (hstale : ¬ e.Stale w.store)
    (hplaced : ¬ e.Waiting) : e.Declines (w.context registry) w.store state := by
  obtain ⟨hcurrent, hwaiting | ⟨p, b, hseated⟩⟩ := (h.engines he).current hstale
  · exact absurd hwaiting hplaced
  · obtain rfl : e.run.state = state :=
      RunState.name_inj ((hcurrent.state_eq (hid ▸ hr)).symm.trans hstate)
    exact hseated.declines hover

/-- Preparing an engine of a run that is over places it and writes nothing. Where the engine holds
the run as the store does, it declines from then on. -/
theorem Sound.prepare_over (h : w.Sound registry) (hloaded : w.Loaded)
    (hr : w.store.runs.get? id = some r) (hstate : r.state = state.name) (hover : state.Over)
    {slot : Nat} {e : Engine} (he : w.engine? slot = some e) (hid : e.run.record.id = id) :
    ∃ e', (e.prepare (w.context registry)).run w.store = (.ok e', w.store) ∧
      (¬ e.Stale w.store → e'.Declines (w.context registry) w.store state) := by
  obtain ⟨config, p, s, hconfig, hu⟩ := h.underway hr hstate hover.entered
  obtain ⟨-, c, hc, htag⟩ := hloaded.engines he
  obtain rfl : c = r := Option.some.inj (hc.symm.trans (hid ▸ hr))
  have hflow := (h.engines he).flow
  rw [← htag, hconfig] at hflow
  obtain rfl : config = e.config := Except.ok.inj hflow
  have hrun : e.run.record.id = c.id := ((h.store.runs hc).1).symm
  obtain ⟨step₀, hprepare, -⟩ := Engine.prepare_placed (w.context registry) h.store
    (h.flows hconfig) hrun hu
  refine ⟨_, hprepare, fun hstale => ?_⟩
  -- the engine is in use after the call, and the store is the one before
  have hafter := h.step (.call slot .prepare)
  simp only [World.step, he, Engine.call, hprepare] at hafter
  refine hafter.declines hc hstate hover (engine_set he _) rfl hstale ?_
  rintro ⟨hidle, -⟩
  cases hidle

/-- A fresh engine of a run that is over is opened without writing anything, and declines. -/
theorem Sound.fresh_over (h : w.Sound registry) (hr : w.store.runs.get? r.id = some r)
    (hstate : r.state = state.name) (hover : state.Over) :
    ∃ e, (Engine.fresh (w.context registry) r.id).run w.store = (.ok e, w.store) ∧
      e.Declines (w.context registry) w.store state := by
  obtain ⟨config, p, s, hconfig, hu⟩ := h.underway hr hstate hover.entered
  obtain ⟨e, b, hfresh, -, hrun, hseated⟩ := Engine.fresh_underway (w.context registry) h.store
    (h.flows hconfig) hconfig hr hu
  have hdeclines := hseated.declines (by rw [hrun]; exact hover)
  rw [hrun] at hdeclines
  exact ⟨e, hfresh, hdeclines⟩

/-- A run that is over is never changed again. An engine that is opened on it afterwards takes its
seat without writing anything, and declines with the state of the run. -/
theorem ended_run_stays {id : Int} {r : RunRecord} {state : RunState}
    (h : Reachable registry w) (hr : w.store.runs.get? id = some r)
    (hstate : r.state = state.name) (hover : state = .finished ∨ state = .error)
    (hreaches : Reaches registry w w') :
    SameLeg w.store w'.store id ∧
    (∃ e, (Engine.fresh (w'.context registry) id).run w'.store = (.ok e, w'.store) ∧
      e.Declines (w'.context registry) w'.store state) ∧
    ∀ slot e, w'.engine? slot = some e → e.run.record.id = id →
      (∃ e', (e.prepare (w'.context registry)).run w'.store = (.ok e', w'.store) ∧
        (w.engines.length ≤ slot → e'.Declines (w'.context registry) w'.store state)) ∧
      (w.engines.length ≤ slot → ¬ e.Waiting →
        e.Declines (w'.context registry) w'.store state) := by
  have hsound := h.sound
  have hsound' := hreaches.sound hsound
  have hloaded : w'.Loaded := Reachable.loaded (h.trans hreaches)
  obtain rfl : r.id = id := (hsound.store.runs hr).1
  obtain ⟨hleg, hholders⟩ := hsound.over_reaches hr hstate hover hreaches
  have hr' : w'.store.runs.get? r.id = some r := hleg.run.trans hr
  refine ⟨hleg, hsound'.fresh_over hr' hstate hover, fun slot e he hid => ?_⟩
  have hstale (hslot : w.engines.length ≤ slot) : ¬ e.Stale w'.store :=
    Engine.not_stale (hid ▸ hr') (hholders slot e hslot he hid).symm
  obtain ⟨e', hprepare, hdeclines⟩ := hsound'.prepare_over hloaded hr' hstate hover he hid
  exact ⟨⟨e', hprepare, fun hslot => hdeclines (hstale hslot)⟩,
    fun hslot hplaced => hsound'.declines hr' hstate hover he hid (hstale hslot) hplaced⟩

/-- The caller has gone. The engine that let the caller go changes nothing any more, and a fresh
one declines. -/
theorem ended_run_stays_reception : ∃ (w' : World) (e : Engine),
    w' = Reception.answered.step .builtins (.call 0 (.run (some "43"))) ∧
    SameLeg Reception.answered.store w'.store 1 ∧
    (Engine.fresh (w'.context .builtins) 1).run w'.store = (.ok e, w'.store) ∧
    e.Declines (w'.context .builtins) w'.store .finished := by
  have hstored : (Reception.answered.store.runs.get? 1).map (·.state) =
      some RunState.finished.name := by decide +kernel
  obtain ⟨r, hr, hstate⟩ := Option.map_eq_some_iff.mp hstored
  obtain ⟨hleg, ⟨e, hfresh, hdeclines⟩, -⟩ :=
    ended_run_stays Reception.reachable_answered hr hstate (.inl rfl)
      (.step (.call 0 (.run (some "43"))) .refl)
  exact ⟨_, e, rfl, hleg, hfresh, hdeclines⟩

end World
end CallFlow
