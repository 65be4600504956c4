import CallFlow.Proofs.World.Budget
import CallFlow.Proofs.World.CurrentStep
import CallFlow.Proofs.World.Log

/-! # Input is asked for before it is taken

An input step that was not prompted for is prompted for, and what the caller has entered makes no
difference. A run waits for input only where its last logged call has asked for it. So the input of
every attempt was asked for by the call before, at the very step run that the attempt was made on.
-/
namespace CallFlow
open Memory Work

structure Memory.Restates (m : Memory) (r : RunRecord) (m' : Memory) : Prop where
  runs : m'.runs = m.runs.insert r.id r
  stepRuns : m'.stepRuns = m.stepRuns
  attempts : m'.attempts = m.attempts
  positions : m'.positions = m.positions

namespace Engine
variable {ctx : Context} {m : Memory} {e : Engine} {p : PositionRecord} {b : BoundStep}

/-- An input step that was not prompted for is prompted for, with the same answer and the same
store whatever the input is. -/
def PromptsFirst (ctx : Context) (m : Memory) (e : Engine) : Prop :=
  ∀ b, e.stepEngine.current? = some b → b.step.isInput = true →
    e.run.state ≠ .requestingUserInput → e.run.state.Going →
    ∃ r e' m', m.runs.get? e.run.record.id = some r ∧
      (∀ raw, e.runStep ctx raw m =
        ((.ok ⟨.success b.step.behavior.prompt, .step b⟩, e'), m')) ∧
      m.Restates (r.left .requestingUserInput r.session m.clock) m'

theorem Seated.promptsFirst (hm : m.Sound) (hw : e.config.tree.WellFormed ctx.registry)
    (h : e.Seated ctx.registry m p b) : e.PromptsFirst ctx m := by
  intro b' hb' hinput hstate hgoing
  cases hb'.symm.trans h.holds.current
  obtain ⟨r, hr, hv⟩ := h.held.version
  let prompted := e.inState .requestingUserInput
  refine ⟨r, prompted.atVersion (r.version + 1),
    m.post .nothing m.nextId (prompted.stored (r.version + 1) m.clock), hr, fun raw => ?_, ?_⟩
  · have hnone : e.execution? ctx raw = none := execution_eq_none h.holds.current hinput hstate
    have hran := h.runStep_ran hm hw hr hv raw
    generalize e.runStep ctx raw m = ran at hran
    cases hran with
    | committed played =>
      cases played with
      | prompted => rfl
      | executed executed => cases hnone.symm.trans executed
    | ended state => exact (state.elim hgoing.1 hgoing.2).elim
    | refused _ executed => cases hnone.symm.trans executed
  · have hsession : prompted.run.record = { e.run.record with session := r.session } := by
      show e.run.record = _
      rw [h.held.record_eq hr]
    rw [h.held.stored_left hr hsession m.clock, post_eq]
    exact ⟨rfl, rfl, rfl, rfl⟩

end Engine

namespace World
variable {registry : Registry} {w : World} {id : Int} {m : Memory} {calls : List Made}
variable {d : Option Made} {s : StepRunRecord} {a : AttemptRecord} {step : Step}

/-! ## Visits to steps of a flow -/

def Visit (registry : Registry) (w : World) (s : StepRunRecord) (step : Step) : Prop :=
  ∃ r config, w.store.runs.get? s.run = some r ∧ w.catalog.resolve r.configTag = .ok config ∧
    config.HasStep registry step ∧ s.Visits step

/-- What a step run is a visit to was settled with its run. -/
theorem Sound.visit_before (h : w.Sound registry) (action : Action)
    (hs : w.store.stepRuns.get? s.id = some s)
    (hv : (w.step registry action).Visit registry s step) : w.Visit registry s step := by
  obtain ⟨r', config', hr', hconfig', hstep, hvisits⟩ := hv
  obtain ⟨-, -, r, hr⟩ := h.store.stepRuns hs
  obtain ⟨config, hconfig, -⟩ := h.runs hr
  obtain ⟨u, hu, htag, -⟩ := h.run_step action hr
  obtain rfl : r' = u := Option.some.inj (hr'.symm.trans hu)
  have hextended := step_extends registry w action hconfig
  rw [← htag] at hextended
  obtain rfl : config = config' := Except.ok.inj (hextended.symm.trans hconfig')
  exact ⟨r, config, hr, hconfig, hstep, hvisits⟩

theorem Sound.visit_seated {e : Engine} {p : PositionRecord} {b : BoundStep}
    (h : w.Sound registry) (hflow : w.catalog.resolve e.run.record.configTag = .ok e.config)
    (hseated : e.Seated registry w.store p b) (hv : w.Visit registry b.stepRun.record step) :
    step = b.step := by
  obtain ⟨r, config, hr, hconfig, hstep, hvisits⟩ := hv
  obtain ⟨hrun, -⟩ := hseated.underway.current_run h.store
  rw [hrun] at hr
  have htag : e.run.record.configTag = r.configTag := by rw [hseated.held.record_eq hr]
  obtain rfl : e.config = config := Except.ok.inj ((htag ▸ hflow).symm.trans hconfig)
  exact hstep.unique (h.flows hflow) hseated.step
    (hvisits.branch.symm.trans hseated.visits.branch) (hvisits.name.symm.trans hseated.visits.name)

/-! ## What the log says of waiting runs -/

/-- Where the run waits for input, its last logged call has asked for it. -/
def Awaits (m : Memory) (id : Int) (calls : List Made) : Prop :=
  ∀ r p s, m.runs.get? id = some r → r.state = RunState.requestingUserInput.name →
    m.latestPosition id = some p → m.stepRuns.get? p.stepRun = some s →
    ∃ d, calls.getLast? = some d ∧ d.Asks s

/-- The attempt was logged right after a call that asked for the input of its step run. -/
def AskedFor (calls : List Made) (s : StepRunRecord) (a : AttemptRecord) : Prop :=
  ∃ d d', [d, d'] <:+: calls ∧ d.Asks s ∧ d'.Records s a

theorem AskedFor.append (h : AskedFor calls s a) (later : List Made) :
    AskedFor (calls ++ later) s a := by
  obtain ⟨d, d', hinfix, hrest⟩ := h
  exact ⟨d, d', hinfix.trans (List.prefix_append calls later).isInfix, hrest⟩

theorem askedFor_concat {d d' : Made} (hlast : calls.getLast? = some d) (hasks : d.Asks s)
    (hrecords : d'.Records s a) : AskedFor (calls ++ [d']) s a := by
  obtain ⟨earlier, rfl⟩ := List.getLast?_eq_some_iff.mp hlast
  refine ⟨d, d', ⟨earlier, [], ?_⟩, hasks, hrecords⟩
  simp only [List.append_assoc, List.cons_append, List.nil_append, List.append_nil]

namespace Logs
variable (hsound : w.Sound registry) (h : w.Logs registry id m d)
include hsound h

theorem awaits (hw : Awaits w.store id calls) : Awaits m id (calls ++ d.toList) := by
  intro r p s hr hstate hp hs
  cases h with
  | quiet leg =>
    obtain ⟨hp, hs, -⟩ := leg.current hsound.store hp hs
    rw [Option.toList_none, List.append_nil]
    exact hw r p s (leg.run ▸ hr) hstate hp hs
  | created named stored fresh =>
    obtain rfl := Option.some.inj (stored.symm.trans hr)
    cases RunState.name_inj (fresh.state.symm.trans hstate)
  | turned run flow turn asks =>
    subst run
    obtain rfl := Option.some.inj ((turn.stored_run _ _).symm.trans hr)
    obtain rfl := Option.some.inj ((turn.leads.latest hsound.store turn.fits).symm.trans hp)
    obtain rfl := Option.some.inj ((turn.leads.current hsound.store turn.fits).symm.trans hs)
    exact ⟨_, List.getLast?_concat, asks (RunState.name_inj hstate)⟩

/-- An attempt at an input step is made while the run waits for the input. -/
theorem askedFor (hw : Awaits w.store id calls) (hs : m.stepRuns.get? s.id = some s)
    (hrun : s.run = id) (ha : a ∈ m.attemptsOf s.id)
    (hvisit : w.store.stepRuns.get? s.id = some s → w.Visit registry s step)
    (hinput : step.isInput = true)
    (hold : w.store.stepRuns.get? s.id = some s → a ∈ w.store.attemptsOf s.id →
      AskedFor calls s a) : AskedFor (calls ++ d.toList) s a := by
  cases h with
  | quiet leg =>
    have hs := (leg.stepRuns hrun).mp hs
    rw [leg.attempts hs hrun] at ha
    exact (hold hs ha).append _
  | created named _ fresh => exact absurd (hrun.trans named.symm) (fresh.stepRuns hs)
  | @turned e e' x n version p b d run flow turn asks records =>
    rcases (post_stepRuns_get? hsound.store turn.fits).mp hs with hs | ⟨hvisited, -⟩
    · rw [post_attemptsOf hsound.store turn.fits] at ha
      rcases List.mem_append.mp ha with ha | ha
      · exact (hold hs ha).append _
      · -- the attempt is new, so it was made where the engine of the call was seated
        obtain ⟨hnew, hat⟩ := List.mem_filter.mp ha
        obtain ⟨p, b, hseated, hrecords, hwaits⟩ := records a (Option.mem_toList.mp hnew)
        obtain ⟨-, hplace, hcurrent⟩ := hseated.underway.current_run hsound.store
        obtain rfl : s = b.stepRun.record := by
          obtain ⟨raw, b', x, -, -, hsame, -, rfl, -⟩ := hrecords
          have hat : b'.stepRun.record.id = s.id := of_decide_eq_true hat
          rw [← hat, hsame] at hs
          exact Option.some.inj (hs.symm.trans hcurrent)
        obtain rfl := hsound.visit_seated flow hseated (hvisit hs)
        -- there the run waited for input, so the call before had asked for it
        obtain ⟨r, hr, -⟩ := hseated.held.version
        have hstate : r.state = RunState.requestingUserInput.name := by
          rw [hseated.held.state_eq hr, hwaits hinput]
        obtain ⟨d₀, hlast, hasks⟩ := hw r p _ (run ▸ hr) hstate (run ▸ hseated.underway.latest)
          (hplace ▸ hcurrent)
        exact askedFor_concat hlast hasks hrecords
    · rw [attemptsOf_post_visit hsound.store turn.fits hvisited] at ha
      cases ha

end Logs

/-! ## Runs of actions -/

/-- Whatever has happened, a run that waits for input was asked for it last. -/
theorem awaits_after (registry : Registry) (id : Int) (actions : List Action) :
    Awaits (empty.after registry actions).store id (log registry id empty actions) := by
  induction actions using List.reverseRecOn with
  | nil => exact fun r _ _ hr => by cases hr
  | append_singleton actions action ih =>
    have hreachable : Reachable registry (empty.after registry actions) :=
      reaches_iff.mpr ⟨actions, rfl⟩
    have hlogs := hreachable.sound.logs hreachable.loaded action id
    rw [after_concat, log_concat]
    exact hlogs.awaits hreachable.sound ih

theorem askedFor_after {actions : List Action}
    (hs : (empty.after registry actions).store.stepRuns.get? s.id = some s)
    (ha : a ∈ (empty.after registry actions).store.attemptsOf s.id)
    (hvisit : (empty.after registry actions).Visit registry s step) (hinput : step.isInput = true) :
    AskedFor (log registry s.run empty actions) s a := by
  induction actions using List.reverseRecOn with
  | nil => cases hs
  | append_singleton actions action ih =>
    have hreachable : Reachable registry (empty.after registry actions) :=
      reaches_iff.mpr ⟨actions, rfl⟩
    have hlogs := hreachable.sound.logs hreachable.loaded action s.run
    rw [after_concat] at hs ha hvisit
    rw [log_concat]
    have hbefore := fun hs => hreachable.sound.visit_before action hs hvisit
    exact hlogs.askedFor hreachable.sound (awaits_after registry s.run actions) hs rfl ha hbefore
      hinput fun hs ha => ih hs ha (hbefore hs)

/-- An input step that was not prompted for is prompted for, whatever the caller has entered. Every
attempt at one was made right after a committed call that asked for the input of its step run. -/
theorem input_asked_for_first (registry : Registry) :
    (∀ {w : World} {id : Int} {r : RunRecord}, Reachable registry w →
      w.store.runs.get? id = some r →
      w.AtCurrentStep registry id r fun e m => e.PromptsFirst (w.context registry) m) ∧
    ∀ {actions : List Action} {id : Int} {a : AttemptRecord} {s : StepRunRecord} {step : Step},
      (empty.after registry actions).store.attempts.get? id = some a →
      (empty.after registry actions).store.stepRuns.get? a.stepRun = some s →
      (empty.after registry actions).Visit registry s step → step.isInput = true →
      ∃ d d', [d, d'] <:+: log registry s.run empty actions ∧ d.Asks s ∧ d'.Records s a := by
  constructor
  · intro w id r hw hr
    exact hw.atCurrentStep hr fun hm hw hseated => Engine.Seated.promptsFirst hm hw hseated
  · intro actions id a s step ha hs hvisit hinput
    have hreachable : Reachable registry (empty.after registry actions) :=
      reaches_iff.mpr ⟨actions, rfl⟩
    have hid : s.id = a.stepRun := (hreachable.sound.store.stepRuns hs).1
    exact askedFor_after (hid ▸ hs) (mem_attemptsOf.mpr ⟨⟨id, ha⟩, hid.symm⟩) hvisit hinput

/-- The caller is asked for an account whatever was entered, and the answer that is not a number
comes right after the question. -/
theorem input_asked_for_first_reception : ∃ (e : Engine) (b : BoundStep) (e' : Engine) (m : Memory)
    (actions : List Action) (s : StepRunRecord) (a : AttemptRecord) (d d' : Made),
    Reception.greeted.engine? 0 = some e ∧
    (∀ raw, e.runStep (Reception.greeted.context .builtins) raw Reception.greeted.store =
      ((.ok ⟨.success (some "Account?"), .step b⟩, e'), m)) ∧
    Reception.misdialed = empty.after .builtins actions ∧
    Reception.misdialed.store.attemptsOf 5 = [a] ∧ a.input = some (.str "home") ∧ s.id = 5 ∧
    [d, d'] <:+: log .builtins 1 empty actions ∧ d.Asks s ∧ d'.Records s a := by
  obtain ⟨hprompts, hasked⟩ := input_asked_for_first .builtins
  obtain ⟨e, p, b, he, hrun, hv, hp, hb, hinput, hprompt, hstate⟩ : ∃ e p b,
      Reception.greeted.engine? 0 = some e ∧ e.run.record.id = 1 ∧
      (Reception.greeted.store.runs.get? 1).map (·.version) = some e.run.record.version ∧
      e.position = some p ∧ e.stepEngine.current? = some b ∧ b.step.isInput = true ∧
      b.step.behavior.prompt = some "Account?" ∧ e.run.state = .stepInProgress :=
    ⟨_, _, _, rfl, rfl, rfl, rfl, rfl, rfl, rfl, rfl⟩
  obtain ⟨r, hr, hready⟩ := exists_ready he hrun hp hv
  obtain ⟨-, -, hfirst⟩ := (hprompts Reception.reachable_greeted hr).ready 0 e hready
  obtain ⟨-, e', m, -, hran, -⟩ := hfirst b hb hinput (by simp [hstate])
    (by simp [hstate, RunState.Going])
  let actions := deploying Reception.flow 1 ++ [.call 0 .prepare] ++ [.call 0 (.run none)] ++
    [.call 0 (.run none)] ++ [.call 0 (.run (some "home"))]
  have hafter : Reception.misdialed = empty.after .builtins actions := by
    simp only [actions, after_concat]
    rw [after_deploying rfl rfl 1]
    rfl
  obtain ⟨u, s, a, step, hu, htag, hs, hrun, hid, ha, hat, hentered, hlisted, hstep, hvisits,
      hwaits⟩ : ∃ u s a step, Reception.misdialed.store.runs.get? 1 = some u ∧
      u.configTag = Reception.flow.tag ∧ Reception.misdialed.store.stepRuns.get? 5 = some s ∧
      s.run = 1 ∧ s.id = 5 ∧ Reception.misdialed.store.attempts.get? 7 = some a ∧ a.stepRun = 5 ∧
      a.input = some (.str "home") ∧ Reception.misdialed.store.attemptsOf 5 = [a] ∧
      Reception.flow.HasStep .builtins step ∧ s.Visits step ∧ step.isInput = true :=
    ⟨_, _, _, _, rfl, rfl, rfl, rfl, rfl, rfl, rfl, rfl, rfl,
      ⟨Reception.desk, .head _, Reception.account, .tail _ (.head _), Step.ofTemplate_eq_ok.mp rfl⟩,
      ⟨rfl, rfl, rfl, rfl⟩, rfl⟩
  have hflow : Reception.misdialed.catalog.resolve u.configTag = .ok Reception.flow :=
    htag ▸ context_flows .builtins (show Reception.misdialed.catalog = _ from rfl)
  have hvisit : Reception.misdialed.Visit .builtins s step :=
    ⟨u, Reception.flow, hrun ▸ hu, hflow, hstep, hvisits⟩
  rw [hafter] at ha hs hvisit
  obtain ⟨d, d', hinfix, hasks, hrecords⟩ := hasked ha (hat ▸ hs) hvisit hwaits
  rw [hrun] at hinfix
  rw [hprompt] at hran
  exact ⟨e, b, e', m, actions, s, a, d, d', he, hran, hafter, hlisted, hentered, hid, hinfix,
    hasks, hrecords⟩

end World
end CallFlow
