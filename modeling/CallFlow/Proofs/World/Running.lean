import CallFlow.Proofs.Flow.Builtins
import CallFlow.Proofs.World.Deployed

/-! # Published flows run

A run of a published flow does not get stuck. A fresh engine is always seated, and its call is
committed unless the run has come to an end, as long as no step asks for what it cannot be given.
-/
namespace CallFlow
open Memory

def FlowConfig.ReplaysPrompts (config : FlowConfig) (ctx : Context) : Prop :=
  ∀ step, config.HasStep ctx.registry step → step.isInput = false → ∀ raw session message,
    (step.behavior.execute ctx.services raw session).outcome ≠ .ok (.replay message)

/-- In a flow of built-in steps only questions and menus ask to be replayed. -/
theorem FlowConfig.replaysPrompts_builtins (config : FlowConfig) {ctx : Context}
    (h : ctx.registry = .builtins) : config.ReplaysPrompts ctx := by
  rintro step ⟨b, -, t, -, hstep⟩ hinput raw session message hout
  have hconstructs := hstep.behavior
  rw [h] at hconstructs
  rcases Registry.builtins_construct hconstructs with hprompt | ⟨m, hm⟩
  · rw [Step.isInput, hprompt] at hinput
    cases hinput
  · rw [hm, MessageStep.execute_eq] at hout
    cases hout

namespace Engine

def StaysInFlow (ctx : Context) (e : Engine) (raw : Option String) : Prop :=
  ∀ x queue, e.execution? ctx raw = some x → x.outcome ≠ .ok (.exitQueue queue)

/-- A call is committed, or it is told that the run has come to an end. -/
def Proceeds (ctx : Context) (m : Memory) (e : Engine) : Prop :=
  ∀ raw, e.StaysInFlow ctx raw → Committed (e.runStep ctx raw m).1.1 ∨
    (e.run.state = .finished ∨ e.run.state = .error) ∧
      (e.runStep ctx raw m).1.1 = .error (.notRunnable e.run.state)

variable {ctx : Context} {m : Memory} {e : Engine} {p : PositionRecord} {b : BoundStep}

theorem Seated.proceeds (ctx : Context) {c : RunRecord} (hm : m.Sound) (hw : e.config.tree.WellFormed ctx.registry)
    (h : e.Seated ctx.registry m p b) (hc : m.runs.get? e.run.record.id = some c)
    (hv : c.version = e.run.record.version) (hreplay : e.config.ReplaysPrompts ctx) :
    e.Proceeds ctx m := by
  intro raw hstays
  have hran := h.runStep_ran hm hw hc hv raw
  generalize e.runStep ctx raw m = ran at hran
  cases hran with
  | committed played => exact .inl (played.turn hm hw h).2.committed
  | ended state => exact .inr ⟨state, rfl⟩
  | refused refusal executed impossible =>
    -- what the step would have to ask for is ruled out
    cases impossible with
    | queue leaves => exact absurd leaves (hstays _ _ executed)
    | @replay message replays missing =>
      rw [execution_of_current h.holds.current executed] at replays
      exact absurd replays (hreplay b.step h.step (missing b h.holds.current) _ _ message)

theorem Current.version (h : e.Current m) :
    ∃ c, m.runs.get? e.run.record.id = some c ∧ c.version = e.run.record.version := by
  obtain ⟨r, hr, hsame⟩ := h.stored
  exact ⟨r, hr, by rw [hsame]⟩

/-- A fresh engine on a run that is under way takes its seat without writing anything. -/
theorem fresh_underway (ctx : Context) {r : RunRecord} {config : FlowConfig} {state : RunState}
    {s : StepRunRecord} (hm : m.Sound) (hw : config.tree.WellFormed ctx.registry)
    (hf : ctx.flows r.configTag = .ok config) (hr : m.runs.get? r.id = some r)
    (hu : m.Underway ctx.registry config ⟨r, state⟩ p s) :
    ∃ e b, (fresh ctx r.id).run m = (.ok e, m) ∧ e.config = config ∧ e.run = ⟨r, state⟩ ∧
      e.Seated ctx.registry m p b := by
  let e₀ : Engine := ⟨config, ⟨r, state⟩, .idle, none⟩
  have hcreate : (create ctx r.id).run m = (.ok e₀, m) := create_run hr hu.named hf
  have hcurrent : e₀.Current m := ⟨⟨r, hr, rfl⟩, hu.named⟩
  obtain ⟨b, hprepare, hseated⟩ := prepare_underway hm hw hcurrent hu
  exact ⟨_, b, (Effect.bind_of_ok hcreate).trans hprepare, rfl, rfl, hseated⟩

theorem fresh_seated (ctx : Context) {r : RunRecord} {config : FlowConfig} (hm : m.Sound)
    (hw : config.tree.WellFormed ctx.registry) (hf : ctx.flows r.configTag = .ok config)
    (hr : m.runs.get? r.id = some r) (ht : m.Tracks ctx.registry config r) :
    ∃ e m' p b, (fresh ctx r.id).run m = (.ok e, m') ∧ m'.Sound ∧ e.config = config ∧
      e.run.record.id = r.id ∧ e.Seated ctx.registry m' p b ∧
      ∀ state : RunState, r.state = state.name → state ≠ .uninitialized → e.run.state = state := by
  rcases ht with hu | ⟨state, p, s, hu⟩
  · let e₀ : Engine := ⟨config, ⟨r, .uninitialized⟩, .idle, none⟩
    have hcreate : (create ctx r.id).run m = (.ok e₀, m) := create_run hr hu.state hf
    obtain ⟨x, n, e', p, b, hprepare, hopened⟩ :=
      prepare_unprepared (e := e₀) hm hw hr hu rfl rfl rfl rfl
    have hturn := hopened.turn hm hr hu rfl rfl
    have hrec : m.Recorded ctx.registry config r.id := hu.recorded ctx.registry
    refine ⟨_, _, p, b, (Effect.bind_of_ok hcreate).trans hprepare,
      hm.post hturn.fits hturn.same.id hr, hturn.same.config, hturn.same.id,
      hturn.seated hm hrec _ _, ?_⟩
    intro state hstate hne
    rw [hu.state] at hstate
    exact absurd (RunState.name_inj hstate).symm hne
  · obtain ⟨e, b, hfresh, hconfig, hrun, hseated⟩ := fresh_underway ctx hm hw hf hr hu
    refine ⟨e, m, p, b, hfresh, hm, hconfig, by rw [hrun], hseated, ?_⟩
    intro state' hstate _
    have hnamed : r.state = state.name := hu.named
    rw [hnamed] at hstate
    rw [hrun]
    exact RunState.name_inj hstate

end Engine

namespace World
variable {registry : Registry} {w : World}

namespace Sound
variable (h : w.Sound registry)
include h

/-- A fresh engine of any run is seated, and nothing is in the way of its call. -/
theorem fresh_proceeds {r : RunRecord} (hr : w.store.runs.get? r.id = some r)
    (hreplay : ∀ config, w.catalog.resolve r.configTag = .ok config →
      config.ReplaysPrompts (w.context registry)) :
    ∃ e m, (Engine.fresh (w.context registry) r.id).run w.store = (.ok e, m) ∧
      e.Proceeds (w.context registry) m ∧
      ∀ state : RunState, r.state = state.name → state ≠ .uninitialized → e.run.state = state := by
  obtain ⟨config, hconfig, htracks⟩ := h.runs hr
  have hw := h.flows hconfig
  obtain ⟨e, m, p, b, hfresh, hm, rfl, -, hseated, hstate⟩ :=
    Engine.fresh_seated (w.context registry) h.store hw hconfig hr htracks
  obtain ⟨c, hc, hv⟩ := hseated.held.version
  have hproceeds := hseated.proceeds (w.context registry) hm hw hc hv
    (hreplay e.config hconfig)
  exact ⟨e, m, hfresh, hproceeds, hstate⟩

/-- Nothing is in the way of a call by an engine that was prepared and not overtaken. -/
theorem engine_proceeds {slot : Nat} {e : Engine} (he : w.engine? slot = some e)
    (hplaced : ¬ e.Waiting) (hstale : ¬ e.Stale w.store)
    (hreplay : e.config.ReplaysPrompts (w.context registry)) :
    e.Proceeds (w.context registry) w.store := by
  have hadmitted := h.engines he
  obtain ⟨-, hwaiting | ⟨p, b, hseated⟩⟩ := hadmitted.current hstale
  · exact absurd hwaiting hplaced
  · obtain ⟨c, hc, hv⟩ := hseated.held.version
    exact hseated.proceeds (w.context registry) h.store (h.flows hadmitted.flow) hc hv hreplay

end Sound

/-- A run of a published flow does not get stuck. A fresh engine can be opened on it, and a call
by an engine that was not overtaken is committed or told that the run has come to an end; a run
that waits for input, for its next step or for its first one is always taken up. -/
theorem published_flow_never_stuck {id : Int} {r : RunRecord} (h : Reachable registry w)
    (hr : w.store.runs.get? id = some r)
    (hreplay : ∀ config, w.catalog.resolve r.configTag = .ok config →
      config.ReplaysPrompts (w.context registry)) :
    (∃ e m, (Engine.fresh (w.context registry) id).run w.store = (.ok e, m) ∧
      e.Proceeds (w.context registry) m ∧
      ∀ state : RunState, r.state = state.name →
        state = .requestingUserInput ∨ state = .stepInProgress ∨ state = .initialized →
        ∀ raw, e.StaysInFlow (w.context registry) raw →
          Committed (e.runStep (w.context registry) raw m).1.1) ∧
    ∀ slot e, w.engine? slot = some e → e.run.record.id = id → ¬ e.Waiting → ¬ e.Stale w.store →
      e.Proceeds (w.context registry) w.store := by
  have hsound := h.sound
  have hid : r.id = id := (hsound.store.runs hr).1
  constructor
  · rw [← hid] at hr ⊢
    obtain ⟨e, m, hfresh, hproceeds, hstate⟩ := hsound.fresh_proceeds hr hreplay
    refine ⟨e, m, hfresh, hproceeds, fun state hnamed hready raw hstays => ?_⟩
    have he : e.run.state = state := by
      apply hstate state hnamed
      rintro rfl
      rcases hready with hs | hs | hs <;> cases hs
    rcases hproceeds raw hstays with hcommitted | ⟨hover, -⟩
    · exact hcommitted
    · rw [he] at hover
      rcases hready with rfl | rfl | rfl <;> rcases hover with hs | hs <;> cases hs
  · intro slot e he hrun hplaced hstale
    apply hsound.engine_proceeds he hplaced hstale
    apply hreplay
    have hadmitted := hsound.engines he
    have htag : e.run.record.configTag = r.configTag := by
      rw [(hadmitted.current hstale).1.record_eq (hrun ▸ hr)]
    rw [← htag]
    exact hadmitted.flow

/-- After the greeting the caller is asked for an account, whatever was entered. -/
theorem published_flow_never_stuck_reception :
    (∃ e m, (Engine.fresh (Reception.greeted.context .builtins) 1).run Reception.greeted.store =
      (.ok e, m) ∧ e.Proceeds (Reception.greeted.context .builtins) m) ∧
    ∃ e, Reception.greeted.engine? 0 = some e ∧ ∀ raw, Committed
      (e.runStep (Reception.greeted.context .builtins) raw Reception.greeted.store).1.1 := by
  have hstored : (Reception.greeted.store.runs.get? 1).map (·.version) = some 2 := by
    decide +kernel
  obtain ⟨r, hr, hversion⟩ := Option.map_eq_some_iff.mp hstored
  have hnever := published_flow_never_stuck Reception.reachable_greeted hr
    fun config _ => config.replaysPrompts_builtins rfl
  constructor
  · obtain ⟨e, m, hfresh, hproceeds, -⟩ := hnever.1
    exact ⟨e, m, hfresh, hproceeds⟩
  · obtain ⟨e, he, hid, hv, hplaced, hstate, hexecution⟩ : ∃ e, Reception.greeted.engine? 0 = some e ∧
        e.run.record.id = 1 ∧ e.run.record.version = 2 ∧ e.position.isSome = true ∧
        e.run.state = .stepInProgress ∧
        ∀ raw, e.execution? (Reception.greeted.context .builtins) raw = none :=
      ⟨_, rfl, rfl, rfl, rfl, rfl, fun _ => rfl⟩
    have hwaiting : ¬ e.Waiting := by
      rintro ⟨-, hposition⟩
      rw [hposition] at hplaced
      cases hplaced
    have hstale : ¬ e.Stale Reception.greeted.store :=
      Engine.not_stale (hid ▸ hr) (hversion.trans hv.symm)
    refine ⟨e, he, fun raw => ?_⟩
    have hstays : e.StaysInFlow (Reception.greeted.context .builtins) raw := by
      intro x queue hx
      rw [hexecution] at hx
      cases hx
    rcases hnever.2 0 e he hid hwaiting hstale raw hstays with hcommitted | ⟨hover, -⟩
    · exact hcommitted
    · rw [hstate] at hover
      rcases hover with hs | hs <;> cases hs

end World
end CallFlow
