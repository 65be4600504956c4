import CallFlow.Proofs.Flow.Builtins
import CallFlow.Proofs.Json.RoundTrip
import CallFlow.Proofs.World.Prompting

/-! # What attempts say of their executions

Every attempt in a reachable store was made by an execution of the step that its step run is a visit
to. Where the flows name built-in kinds of steps only, its result reads back as the result of the
execution, and its flags say whether that is a failure and may be retried. Its input reads back as
what the step accepted; anything else that was entered is on record as it was entered, and the
attempt as a failure.
-/
namespace CallFlow
open Memory Work

namespace StepBehavior
variable {b : StepBehavior}

theorem KeepsResults.attempt_flags (h : b.KeepsResults) (stepRun : Int) (services : Services)
    (raw : Option String) (session : Session) :
    let x := b.execute services raw session
    (StepEngine.newAttempt stepRun raw x).failed = (StepEngine.recordedResult x.outcome).isError ∧
      (StepEngine.newAttempt stepRun raw x).retryable =
        (StepEngine.recordedResult x.outcome).isRetryable := by
  intro x
  cases hout : x.outcome with
  | error error => simp only [StepEngine.newAttempt, hout]; exact ⟨rfl, rfl⟩
  | ok result =>
    have hok := h.execute_ok hout
    simp only [StepEngine.newAttempt, hout, StepEngine.recordedResult]
    refine ⟨hok.symm, ?_⟩
    cases result with
    | error => cases hok
    | success | inputSuccess | replay | exitQueue => rfl

/-- The input of an attempt at a step that takes input was accepted, or else the attempt is a
failure that may be retried and says what was entered. -/
theorem attempt_input {type : InputType} (h : b.inputType = some type) (stepRun : Int)
    (services : Services) (raw : Option String) (session : Session) :
    let a := StepEngine.newAttempt stepRun raw (b.execute services raw session)
    (∃ input, type.bind raw = .ok input ∧ a.input = some input.toJson) ∨
      ∃ cause, type.bind raw = .error cause ∧ a.input = raw.map .str ∧ a.failed = true ∧
        a.retryable = true := by
  intro a
  cases hbind : type.bind raw with
  | ok input =>
    have hx : b.execute services raw session = b.perform ⟨some input, services⟩ session := by
      simp only [execute, h, hbind]
    left
    refine ⟨input, rfl, ?_⟩
    simp only [a, hx, StepEngine.newAttempt, perform_input]
    rfl
  | error cause =>
    have hx : b.execute services raw session = ⟨none, .error (.ofBindError cause), session⟩ := by
      simp only [execute, h, hbind]
    right
    simp only [a, hx]
    exact ⟨cause, rfl, rfl, rfl, rfl⟩

end StepBehavior

theorem InputType.exists_of_bind {type : InputType} {raw : Option String} {input : StepInput}
    (h : type.bind raw = .ok input) : ∃ entered, raw = some entered := by
  cases raw with
  | some entered => exact ⟨entered, rfl⟩
  | none => cases h

namespace World
variable {registry : Registry} {w : World} {id : Int} {a : AttemptRecord} {s : StepRunRecord}
variable {step : Step}

/-- What a step run is a visit to stays so. -/
theorem Sound.visit_after (h : w.Sound registry) (action : Action) (hv : w.Visit registry s step) :
    (w.step registry action).Visit registry s step := by
  obtain ⟨r, config, hr, hconfig, hstep, hvisits⟩ := hv
  obtain ⟨u, hu, htag, -⟩ := h.run_step action hr
  have hextended := step_extends registry w action hconfig
  exact ⟨u, config, hu, htag ▸ hextended, hstep, hvisits⟩

theorem Sound.seated_visit {e : Engine} {p : PositionRecord} {b : BoundStep}
    (h : w.Sound registry) (hflow : w.catalog.resolve e.run.record.configTag = .ok e.config)
    (hseated : e.Seated registry w.store p b) : w.Visit registry b.stepRun.record b.step := by
  obtain ⟨r, hr, -⟩ := hseated.held.version
  obtain ⟨hrun, -⟩ := hseated.underway.current_run h.store
  have htag : e.run.record.configTag = r.configTag := by rw [hseated.held.record_eq hr]
  exact ⟨r, e.config, hrun ▸ hr, htag ▸ hflow, hseated.step, hseated.visits⟩

def Executed (registry : Registry) (w : World) (a : AttemptRecord) : Prop :=
  ∃ s step services raw session, w.store.stepRuns.get? a.stepRun = some s ∧
    w.Visit registry s step ∧
    a = (StepEngine.newAttempt a.stepRun raw
      (step.behavior.execute services raw session)).toRecord a.id a.createdAt

/-- An attempt that a call has made was made by an execution of the step it stood at. -/
theorem Sound.executed_turned {slot : Nat} {e e' : Engine} {c : Change} {n : Int}
    {p : PositionRecord} {b : BoundStep} (h : w.Sound registry) (hused : w.engine? slot = some e)
    (ht : e.Turned (w.context registry) w.store c n e' p b) (ha : c.attempt = some a) :
    w.Executed registry a := by
  cases ht with
  | opened _ _ opened => cases opened with | intro => cases ha
  | @played p b raw answer seated played =>
    cases played with
    | prompted => cases ha
    | @executed x way _ executed goes =>
      rw [Way.change_attempt] at ha
      obtain rfl := Option.some.inj ha
      obtain rfl := Engine.execution_of_current seated.holds.current executed
      obtain ⟨-, -, hcurrent⟩ := seated.current_run h.store
      exact ⟨b.stepRun.record, b.step, _, raw, _, hcurrent,
        h.seated_visit (h.engines hused).flow seated, rfl⟩

theorem Reachable.executed (h : Reachable registry w) :
    ∀ {id a}, w.store.attempts.get? id = some a → w.Executed registry a := by
  induction h with
  | refl => exact fun ha => by cases ha
  | @step w action hw ih =>
    intro id a ha
    have hsound := Reachable.sound hw
    -- what was known of an attempt and its step run is still known
    have hkept (hstepRuns : ∀ {s}, w.store.stepRuns.get? a.stepRun = some s →
        (w.step registry action).store.stepRuns.get? a.stepRun = some s)
        (hbefore : w.Executed registry a) : (w.step registry action).Executed registry a := by
      obtain ⟨s, step, services, raw, session, hs, hvisit, hmade⟩ := hbefore
      exact ⟨s, step, services, raw, session, hstepRuns hs, hsound.visit_after action hvisit, hmade⟩
    have hadvances := hsound.advances action
    generalize (w.step registry action).store = m at hadvances ha hkept
    cases hadvances with
    | quiet tables =>
      exact hkept (fun hs => tables.stepRuns ▸ hs) (ih (tables.attempts ▸ ha))
    | created => exact hkept (fun hs => hs) (ih ha)
    | turned used turn stored version turned =>
      refine hkept (fun hs => (post_stepRuns_get? hsound.store turn.fits).mpr (.inl hs)) ?_
      rcases (post_attempts_get? hsound.store turn.fits).mp ha with hold | ⟨hnew, -⟩
      · exact ih hold
      · exact hsound.executed_turned used turned hnew

theorem Sound.visit_unique {step' : Step} (h : w.Sound registry) (hv : w.Visit registry s step)
    (hv' : w.Visit registry s step') : step = step' := by
  obtain ⟨r, config, hr, hconfig, hstep, hvisits⟩ := hv
  obtain ⟨r', config', hr', hconfig', hstep', hvisits'⟩ := hv'
  obtain rfl : r = r' := Option.some.inj (hr.symm.trans hr')
  obtain rfl : config = config' := Except.ok.inj (hconfig.symm.trans hconfig')
  exact hstep.unique (h.flows hconfig) hstep' (hvisits.branch.symm.trans hvisits'.branch)
    (hvisits.name.symm.trans hvisits'.name)

/-- Where the published flows name built-in kinds only, a step run is a visit to a built-in step. -/
theorem Visit.builtin (hkinds : ∀ {tag config}, w.catalog.resolve tag = .ok config →
    config.NamesBuiltins registry) (hv : w.Visit registry s step) : step.behavior.Builtin := by
  obtain ⟨_, config, -, hconfig, ⟨br, hbr, t, ht, hbuilt⟩, -⟩ := hv
  exact (hkinds hconfig br hbr t ht).construct hbuilt.behavior

/-- In flows of built-in kinds the result of an attempt reads back with its flags. Its input reads
back as one that the step accepts, or is what was entered and not accepted, and that may be retried.
-/
theorem attempts_faithful (h : Reachable registry w)
    (hkinds : ∀ {tag config}, w.catalog.resolve tag = .ok config → config.NamesBuiltins registry)
    (ha : w.store.attempts.get? id = some a) :
    (∃ result, StepResult.ofDocument? (.settled a.result) = some result ∧
      a.failed = result.isError ∧ a.retryable = result.isRetryable) ∧
    (∃ s step, w.store.stepRuns.get? a.stepRun = some s ∧ w.Visit registry s step) ∧
    ∀ s step type, w.store.stepRuns.get? a.stepRun = some s → w.Visit registry s step →
      step.behavior.inputType = some type →
      (∃ written input entered, a.input = some written ∧
        (∀ reading, StepInput.ofDocument? reading (.settled written) = some input) ∧
        type.bind (some entered) = .ok input) ∨
      ∃ raw cause, a.input = raw.map .str ∧ type.bind raw = .error cause ∧
        a.failed = true ∧ a.retryable = true := by
  have hsound := h.sound
  obtain ⟨s, step, services, raw, session, hs, hvisit, hmade⟩ := h.executed ha
  have hkeeps := (hvisit.builtin hkinds).keepsResults
  refine ⟨?_, ⟨s, step, hs, hvisit⟩, ?_⟩
  · obtain ⟨hfailed, hretryable⟩ := hkeeps.attempt_flags a.stepRun services raw session
    rw [hmade]
    exact ⟨_, StepResult.ofDocument?_toJson _, hfailed, hretryable⟩
  · intro s' step' type hs' hvisit' htype
    obtain rfl : s = s' := Option.some.inj (hs.symm.trans hs')
    obtain rfl := hsound.visit_unique hvisit hvisit'
    rcases StepBehavior.attempt_input htype a.stepRun services raw session with
      ⟨input, hbind, hinput⟩ | ⟨cause, hbind, hinput, hflags⟩
    · obtain ⟨entered, rfl⟩ := InputType.exists_of_bind hbind
      left
      rw [hmade]
      exact ⟨_, input, entered, hinput, fun reading => StepInput.ofDocument?_toJson reading input,
        hbind⟩
    · right
      rw [hmade]
      exact ⟨raw, cause, hinput, hbind, hflags⟩

theorem visit_account {u : RunRecord}
    (hcatalog : w.catalog = ⟨Table.empty.insert Reception.flow.tag Reception.flow⟩)
    (hu : w.store.runs.get? s.run = some u) (htag : u.configTag = Reception.flow.tag)
    (hbuilt : Step.ofTemplate Reception.account Reception.desk.name .builtins = .ok step)
    (hvisits : s.Visits step) : w.Visit .builtins s step :=
  ⟨u, Reception.flow, hu, htag ▸ context_flows .builtins hcatalog,
    ⟨Reception.desk, .head _, Reception.account, .tail _ (.head _), Step.ofTemplate_eq_ok.mp hbuilt⟩,
      hvisits⟩

/-- What is not a number is on record as it was entered, and as a failure that may be retried. An
account is on record as the digits that it is. -/
theorem attempts_faithful_reception : ∃ (a a' : AttemptRecord) (result : StepResult)
    (cause : BindError) (written : Json) (input : StepInput) (entered : String),
    Reception.misdialed.store.attempts.get? 7 = some a ∧ a.input = some (.str "home") ∧
    StepResult.ofDocument? (.settled a.result) = some result ∧ result.isError = true ∧
    result.isRetryable = true ∧ (InputType.digits 1 none).bind (some "home") = .error cause ∧
    Reception.answered.store.attempts.get? 7 = some a' ∧ a'.input = some written ∧
    StepInput.ofDocument? .held (.settled written) = some input ∧
    (InputType.digits 1 none).bind (some entered) = .ok input := by
  obtain ⟨a, s, u, step, ha, hs, hu, htag, hbuilt, hvisits, htype, hentered⟩ : ∃ a s u step,
      Reception.misdialed.store.attempts.get? 7 = some a ∧
      Reception.misdialed.store.stepRuns.get? a.stepRun = some s ∧
      Reception.misdialed.store.runs.get? s.run = some u ∧ u.configTag = Reception.flow.tag ∧
      Step.ofTemplate Reception.account Reception.desk.name .builtins = .ok step ∧
      s.Visits step ∧ step.behavior.inputType = some (.digits 1 none) ∧
      a.input = some (.str "home") :=
    ⟨_, _, _, _, rfl, rfl, rfl, rfl, rfl, ⟨rfl, rfl, rfl, rfl⟩, rfl, rfl⟩
  obtain ⟨a', s', u', step', ha', hs', hu', htag', hbuilt', hvisits', htype', hbound⟩ :
      ∃ a s u step, Reception.answered.store.attempts.get? 7 = some a ∧
      Reception.answered.store.stepRuns.get? a.stepRun = some s ∧
      Reception.answered.store.runs.get? s.run = some u ∧ u.configTag = Reception.flow.tag ∧
      Step.ofTemplate Reception.account Reception.desk.name .builtins = .ok step ∧
      s.Visits step ∧ step.behavior.inputType = some (.digits 1 none) ∧ a.failed = false :=
    ⟨_, _, _, _, rfl, rfl, rfl, rfl, rfl, ⟨rfl, rfl, rfl, rfl⟩, rfl, rfl⟩
  have hreachable : Reachable .builtins Reception.misdialed :=
    Reception.grantsUpTo_misdialed.reachable
  obtain ⟨⟨result, hresult, hfails, hretries⟩, -, hinput⟩ :=
    attempts_faithful hreachable (fun _ => FlowConfig.namesBuiltins_builtins _) ha
  obtain ⟨-, -, hinput'⟩ :=
    attempts_faithful Reception.reachable_answered (fun _ => FlowConfig.namesBuiltins_builtins _)
      ha'
  have hvisit :=
    visit_account (show Reception.misdialed.catalog = _ from rfl) hu htag hbuilt hvisits
  have hvisit' :=
    visit_account (show Reception.answered.catalog = _ from rfl) hu' htag' hbuilt' hvisits'
  rcases hinput s step _ hs hvisit htype with
    ⟨written, input, -, hwritten, hread, -⟩ | ⟨raw, cause, hraw, hunbound, hfailed, hretryable⟩
  · rw [hentered] at hwritten
    cases hwritten
    cases hread .held
  · rw [hentered] at hraw
    obtain rfl : raw = some "home" := by
      cases raw with
      | none => cases hraw
      | some entered =>
        cases hraw
        rfl
    rw [hfailed] at hfails
    rw [hretryable] at hretries
    rcases hinput' s' step' _ hs' hvisit' htype' with
      ⟨written, input, entered, hwritten, hread, hbind⟩ | ⟨-, -, -, -, hfailed', -⟩
    · exact ⟨a, a', result, cause, written, input, entered, ha, hentered, hresult, hfails.symm,
        hretries.symm, hunbound, ha', hwritten, hread .held, hbind⟩
    · rw [hbound] at hfailed'
      cases hfailed'

end World
end CallFlow
