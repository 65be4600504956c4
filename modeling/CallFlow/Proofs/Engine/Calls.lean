import CallFlow.Proofs.Engine.Ending

/-! # What a call comes to

A call of a seated engine takes the run up where it stands. It prompts for an input step, or it
executes its step and the run goes one of its ways; either is committed as a turn. Otherwise it
is told that the run has come to an end, or its step asks for what it cannot be given.
-/
namespace CallFlow
open Memory Work

namespace Engine

/-- The execution that a call makes of its step. An input step is prompted for first, and a run
that has come to an end executes nothing. -/
def execution? (ctx : Context) (e : Engine) (raw : Option String) :
    Option StepBehavior.Execution :=
  e.stepEngine.current?.bind fun b =>
    if e.run.state = .requestingUserInput ∨
        b.step.isInput = false ∧ (e.run.state = .initialized ∨ e.run.state = .stepInProgress) then
      some (b.step.behavior.execute ctx.services raw e.run.record.session)
    else none

theorem execution_of_current {ctx : Context} {e : Engine} {b : BoundStep} {raw : Option String}
    {x : StepBehavior.Execution} (hb : e.stepEngine.current? = some b)
    (h : e.execution? ctx raw = some x) :
    x = b.step.behavior.execute ctx.services raw e.run.record.session := by
  unfold execution? at h
  simp only [hb, Option.bind_some] at h
  split at h
  · exact (Option.some.inj h).symm
  · cases h

theorem execution_eq_some {ctx : Context} {e : Engine} {b : BoundStep} {raw : Option String}
    (hb : e.stepEngine.current? = some b) (hs : e.run.state = .requestingUserInput ∨
      b.step.isInput = false ∧ (e.run.state = .initialized ∨ e.run.state = .stepInProgress)) :
    e.execution? ctx raw =
      some (b.step.behavior.execute ctx.services raw e.run.record.session) := by
  simp only [execution?, hb, Option.bind_some, if_pos hs]

theorem execution_eq_none {ctx : Context} {e : Engine} {b : BoundStep} {raw : Option String}
    (hb : e.stepEngine.current? = some b) (hinput : b.step.isInput = true)
    (hs : e.run.state ≠ .requestingUserInput) : e.execution? ctx raw = none := by
  simp [execution?, hb, hinput, hs]

theorem not_over_of_execution {ctx : Context} {e : Engine} {raw : Option String}
    {x : StepBehavior.Execution} (h : e.execution? ctx raw = some x) :
    e.run.state ≠ .finished ∧ e.run.state ≠ .error := by
  obtain ⟨b, -, h⟩ := Option.bind_eq_some_iff.mp h
  split at h
  · rename_i hs
    constructor <;> intro hover <;> simp [hover] at hs
  · cases h

/-- The step asks for what it cannot be given, and the call fails for that: there is no exit path
for the queue, or the step has no prompt to replay. -/
inductive Impossible (ctx : Context) (e : Engine) (outcome : Except StepError StepResult) :
    EngineError → Prop
  | queue {queue cause} (leaves : outcome = .ok (.exitQueue queue))
      (missing : queueExit ctx queue = .error cause) : Impossible ctx e outcome (.config cause)
  | replay {message} (replays : outcome = .ok (.replay message))
      (missing : ∀ b, e.stepEngine.current? = some b → b.step.isInput = false) :
      Impossible ctx e outcome (.invalidState .stepInProgress .replayStep)

structure Prompts (ctx : Context) (e : Engine) (b : BoundStep) (raw : Option String) : Prop where
  ready : e.stepEngine = .holding b .ready
  input : b.step.isInput = true
  state : e.run.state = .initialized ∨ e.run.state = .stepInProgress
  waits : e.execution? ctx raw = none

def promptAnswer (b : BoundStep) : Except EngineError Outcome :=
  .ok ⟨.success b.step.behavior.prompt, .step b⟩

section Answers
variable (ctx : Context) (m : Memory) (e : Engine) (p : PositionRecord) (b : BoundStep)
variable (raw : Option String)

inductive Answers : Except EngineError Outcome × Work Memory → Prop
  | prompted (prompts : e.Prompts ctx b raw) :
      Answers (promptAnswer b, during m m.nextId .nothing (e.inState .requestingUserInput))
  | plays {x y} (executed : e.execution? ctx raw = some x)
      (h : e.Plays ctx m p b (b.newAttempt raw x m.nextId m.clock) x y) : Answers y
  /-- There is nothing left to run. -/
  | ended (state : e.run.state = .finished ∨ e.run.state = .error) :
      Answers (.error (.notRunnable e.run.state), during m m.nextId .nothing e)
  | refused {failure w x} (refusal : ¬ Committed (.error failure : Except EngineError Outcome))
      (executed : e.execution? ctx raw = some x)
      (impossible : e.Impossible ctx x.outcome failure) : Answers (.error failure, w)

/-- How a committed call came about, with what it recorded and where it led. -/
inductive Played : Except EngineError Outcome → Change → Int → Engine → PositionRecord →
    BoundStep → Prop
  | prompted (prompts : e.Prompts ctx b raw) :
      Played (promptAnswer b) .nothing m.nextId (e.inState .requestingUserInput) p b
  | executed {x w answer} (executed : e.execution? ctx raw = some x)
      (goes : e.Goes ctx m b (b.newAttempt raw x m.nextId m.clock) x w answer) :
      Played answer (w.change m e p (b.newAttempt raw x m.nextId m.clock)) (w.nextId m)
        (w.engine m e b (b.newAttempt raw x m.nextId m.clock) x) (w.position m e p)
        (w.step m e b (b.newAttempt raw x m.nextId m.clock))

end Answers

/-! ## Taking the run up -/

section TakeUp
variable {m : Memory} {e : Engine} {n : Int}

theorem takeUp_run_started (isInput : Bool)
    (hs : e.run.state = .initialized ∨ e.run.state = .stepInProgress) :
    (takeUp isInput).run (during m n .nothing e) =
      (.ok (), during m n .nothing (e.inState .stepInProgress)) := by
  refine (Effect.bind_of_ok (engine?_run _)).trans ?_
  rcases hs with hs | hs
  · simp only [during, hs]
    exact fire_run (by simp only [hs]; rfl)
  · have hsame : e.inState .stepInProgress = e := by
      rw [← hs]
      rfl
    rw [hsame]
    simp only [during, hs]
    rfl

theorem takeUp_run_prompted {isInput : Bool} (hinput : isInput = true)
    (hs : e.run.state = .requestingUserInput) :
    (takeUp isInput).run (during m n .nothing e) = (.ok (), during m n .nothing e) := by
  refine (Effect.bind_of_ok (engine?_run _)).trans ?_
  simp only [during, hs, hinput]
  rfl

theorem takeUp_run_over (isInput : Bool) (hs : e.run.state = .finished ∨ e.run.state = .error) :
    (takeUp isInput).run (during m n .nothing e) =
      (.error (.notRunnable e.run.state), during m n .nothing e) := by
  refine (Effect.bind_of_ok (engine?_run _)).trans ?_
  rcases hs with hs | hs <;> simp only [during, hs] <;> rfl

end TakeUp

/-! ## Calls of a seated engine -/

theorem Answers.of_eq {ctx : Context} {m : Memory} {e : Engine} {p : PositionRecord}
    {b : BoundStep} {raw : Option String} {x y : Except EngineError Outcome × Work Memory}
    (h : x = y) (hy : e.Answers ctx m p b raw y) : e.Answers ctx m p b raw x := h ▸ hy

namespace Seated
variable {ctx : Context} {m : Memory} {e : Engine} {p : PositionRecord} {b : BoundStep}
variable (hm : m.Sound) (hw : e.config.tree.WellFormed ctx.registry)
variable (h : e.Seated ctx.registry m p b)
include hm hw h

/-- An input step is executed while its input is processed, any other step while the run is in
progress. -/
theorem executeStep_answers {state : RunState} {raw : Option String}
    (hready : e.stepEngine = .holding b .ready)
    (hstate : state = .processingInput ∧ b.step.isInput = true ∨
      state = .stepInProgress ∧ b.step.isInput = false)
    (hx : e.execution? ctx raw =
      some (b.step.behavior.execute ctx.services raw e.run.record.session)) :
    e.Answers ctx m p b raw
      ((executeStep ctx raw).run (during m m.nextId .nothing (e.inState state))) := by
  obtain ⟨-, -, hget⟩ := h.current_run hm
  let x := b.step.behavior.execute ctx.services raw e.run.record.session
  let a := b.newAttempt raw x m.nextId m.clock
  have hattempt : (attempt ctx raw).run (during m m.nextId .nothing (e.inState state)) =
      (.ok x.outcome, attempted m e b a x state) :=
    attempt_run ctx raw (e := e.inState state) hready (Table.contains_of_get? hget)
  have hrunning : state = .stepInProgress ∨ state = .processingInput :=
    hstate.elim (fun hs => .inr hs.1) (fun hs => .inl hs.1)
  refine .of_eq (Effect.bind_of_ok hattempt) ?_
  cases hout : x.outcome with
  | error error => exact .plays hx (h.handleError_plays hm hw hout hrunning)
  | ok result =>
    cases result with
    | replay message =>
      rcases hstate with ⟨rfl, hinput⟩ | ⟨rfl, hinput⟩
      · exact .plays hx (replay_plays hout rfl hinput)
      · have hfire : (fire .replayStep).run (attempted m e b a x .stepInProgress) =
            (.error (.invalidState .stepInProgress .replayStep),
              attempted m e b a x .stepInProgress) := fire_run_error rfl
        refine .of_eq (Effect.bind_of_error hfire) ?_
        refine .refused id hx (.replay hout ?_)
        intro b' hb'
        rw [hready] at hb'
        cases hb'
        exact hinput
    | exitQueue queue =>
      cases hpath : queueExit ctx queue with
      | ok path => exact .plays hx (exitQueue_plays hout rfl hpath hrunning)
      | error failure =>
        have hconfigured : (configured (queueExit ctx queue)).run (attempted m e b a x state) =
            (.error (.config failure), attempted m e b a x state) := by
          rw [hpath]
          rfl
        refine .of_eq (Effect.bind_of_error hconfigured) ?_
        exact .refused id hx (.queue hout hpath)
    | success message => exact .plays hx (h.proceed_plays hout hm hw trivial hrunning)
    | inputSuccess input message => exact .plays hx (h.proceed_plays hout hm hw trivial hrunning)
    | error message retryable resetStep =>
      exact .plays hx (h.proceed_plays hout hm hw trivial hrunning)

omit hm hw h in
theorem askForInput_answers {raw : Option String} (hprompts : e.Prompts ctx b raw) :
    e.Answers ctx m p b raw
      ((askForInput b).run (during m m.nextId .nothing (e.inState .stepInProgress))) := by
  have hfire : (fire .requestUserInput).run
      (during m m.nextId .nothing (e.inState .stepInProgress)) =
        (.ok (), during m m.nextId .nothing (e.inState .requestingUserInput)) := fire_run rfl
  exact .of_eq (Effect.bind_of_ok hfire) (.prompted hprompts)

/-- A run that was not prompted for its step: an input step is prompted for, any other step is
executed. -/
theorem started_answers {raw : Option String}
    (hs : e.run.state = .initialized ∨ e.run.state = .stepInProgress) :
    e.Answers ctx m p b raw ((callStep ctx raw).run (during m m.nextId .nothing e)) := by
  have hcurrent := h.holds.current
  have hready : e.stepEngine = .holding b .ready := by
    apply h.holds.ready <;> rcases hs with hs | hs <;> simp [hs]
  refine .of_eq (Effect.bind_of_ok (currentStep_run hcurrent)) ?_
  refine .of_eq (Effect.bind_of_ok (takeUp_run_started _ hs)) ?_
  cases hinput : b.step.isInput with
  | true =>
    have hwaits : e.execution? ctx raw = none :=
      execution_eq_none hcurrent hinput (by rcases hs with hs | hs <;> simp [hs])
    exact askForInput_answers ⟨hready, hinput, hs, hwaits⟩
  | false =>
    exact h.executeStep_answers hm hw hready (.inr ⟨rfl, hinput⟩)
      (execution_eq_some hcurrent (.inr ⟨hinput, hs⟩))

theorem prompted_answers {raw : Option String} (hs : e.run.state = .requestingUserInput) :
    e.Answers ctx m p b raw ((callStep ctx raw).run (during m m.nextId .nothing e)) := by
  have hinput := h.prompted hw hs
  have hready : e.stepEngine = .holding b .ready := by
    apply h.holds.ready <;> simp [hs]
  have hfire : (fire .processingUserInput).run (during m m.nextId .nothing e) =
      (.ok (), during m m.nextId .nothing (e.inState .processingInput)) :=
    fire_run (by simp only [during, hs]; rfl)
  refine .of_eq (Effect.bind_of_ok (currentStep_run h.holds.current)) ?_
  refine .of_eq (Effect.bind_of_ok (takeUp_run_prompted hinput hs)) ?_
  rw [if_pos hinput]
  refine .of_eq (Effect.bind_of_ok (engine?_run _)) ?_
  rw [show (during m m.nextId .nothing e).engine.run.state = _ from hs, if_pos rfl]
  refine .of_eq (Effect.bind_of_ok hfire) ?_
  exact h.executeStep_answers hm hw hready (.inl ⟨rfl, hinput⟩)
    (execution_eq_some h.holds.current (.inl hs))

omit hm hw in
theorem over_answers {raw : Option String} (hs : e.run.state = .finished ∨ e.run.state = .error) :
    e.Answers ctx m p b raw ((callStep ctx raw).run (during m m.nextId .nothing e)) := by
  refine .of_eq (Effect.bind_of_ok (currentStep_run h.holds.current)) ?_
  exact .of_eq (Effect.bind_of_error (takeUp_run_over _ hs)) (.ended hs)

/-- Every call of a seated engine is committed as a turn, unless its run has come to an end or
its step asks for what it cannot be given. -/
theorem callStep_answers (raw : Option String) :
    e.Answers ctx m p b raw ((callStep ctx raw).run (during m m.nextId .nothing e)) := by
  cases hs : e.run.state with
  | uninitialized => exact absurd hs h.underway.settled.1
  | processingInput => exact absurd hs h.underway.settled.2
  | initialized => exact h.started_answers hm hw (.inl hs)
  | stepInProgress => exact h.started_answers hm hw (.inr hs)
  | requestingUserInput => exact h.prompted_answers hm hw hs
  | error => exact h.over_answers (.inr hs)
  | finished => exact h.over_answers (.inl hs)

end Seated

/-- What was played is a turn, and it is answered accordingly. -/
theorem Played.turn {ctx : Context} {m : Memory} {e e' : Engine} {p p' : PositionRecord}
    {b b' : BoundStep} {raw : Option String} {answer : Except EngineError Outcome} {x : Change}
    {n : Int} (hm : m.Sound) (hw : e.config.tree.WellFormed ctx.registry)
    (h : e.Seated ctx.registry m p b) (hp : e.Played ctx m p b raw answer x n e' p' b') :
    e.Turn ctx.registry m x n e' p' b' ∧ e'.Answered b' answer := by
  cases hp with
  | prompted prompts =>
    refine ⟨h.wait ⟨rfl, rfl, rfl, rfl⟩ h.position rfl ⟨.ready, prompts.ready, .inl rfl⟩ ?_, ?_⟩
    · exact .inr (.inr (.inr ⟨rfl, prompts.input⟩))
    · exact .step prompts.ready (.inl rfl)
  | executed executed goes =>
    have htakes := goes.takes hm h rfl rfl hw
    exact ⟨htakes.turn, htakes.answered⟩

inductive Ran (ctx : Context) (m : Memory) (e : Engine) (p : PositionRecord) (b : BoundStep)
    (raw : Option String) (version : Int) :
    (Except EngineError Outcome × Engine) × Memory → Prop
  | committed {answer x n e' p' b'} (played : e.Played ctx m p b raw answer x n e' p' b') :
      Ran ctx m e p b raw version
        ((answer, e'.atVersion version), m.post x n (e'.stored version m.clock))
  | ended {e' m'} (state : e.run.state = .finished ∨ e.run.state = .error) (grows : m.Grows m') :
      Ran ctx m e p b raw version ((.error (.notRunnable e.run.state), e'), m')
  | refused {failure e' m' x} (refusal : ¬ Committed (.error failure : Except EngineError Outcome))
      (executed : e.execution? ctx raw = some x)
      (impossible : e.Impossible ctx x.outcome failure) (grows : m.Grows m') :
      Ran ctx m e p b raw version ((.error failure, e'), m')

theorem Answered.committed {b : BoundStep} {e : Engine} {answer : Except EngineError Outcome}
    (h : e.Answered b answer) : Committed answer := by
  cases h <;> trivial

theorem runStep_run {ctx : Context} {m : Memory} {e e₁ e' : Engine} {p p' : PositionRecord}
    {b b' : BoundStep} {raw : Option String} {answer : Except EngineError Outcome} {x : Change}
    {n : Int} {c : RunRecord} (hm : m.Sound) (hw : e.config.tree.WellFormed ctx.registry)
    (h : e.Seated ctx.registry m p b) (hc : m.runs.get? e.run.record.id = some c)
    (hv : c.version = e.run.record.version)
    (hrun : (callStep ctx raw).run (during m m.nextId .nothing e) = (answer, during m n x e₁))
    (houtcome : e₁.outcome answer = e') (hp : e.Played ctx m p b raw answer x n e' p' b') :
    e.Ran ctx m p b raw (c.version + 1) (e.runStep ctx raw m) := by
  subst houtcome
  obtain ⟨hturn, hanswered⟩ := hp.turn hm hw h
  have hcommitted := run_committed hrun hanswered.committed hturn.fits hturn.same hc hv
  unfold runStep
  rw [hcommitted]
  exact .committed hp

/-- A seated engine that holds the version of its run runs its step to a turn. -/
theorem Seated.runStep_ran {ctx : Context} {m : Memory} {e : Engine} {p : PositionRecord}
    {b : BoundStep} {c : RunRecord} (hm : m.Sound) (hw : e.config.tree.WellFormed ctx.registry)
    (h : e.Seated ctx.registry m p b) (hc : m.runs.get? e.run.record.id = some c)
    (hv : c.version = e.run.record.version) (raw : Option String) :
    e.Ran ctx m p b raw (c.version + 1) (e.runStep ctx raw m) := by
  have hstages := StagesOnly.callStep ctx raw (during m m.nextId .nothing e)
  have hanswers := h.callStep_answers hm hw raw
  rcases hrun : (callStep ctx raw).run (during m m.nextId .nothing e) with ⟨answer, w⟩
  rw [hrun] at hstages hanswers
  cases hanswers with
  | prompted prompts => exact runStep_run hm hw h hc hv hrun rfl (.prompted prompts)
  | plays executed hplays =>
    cases hplays with
    | intro goes engine => exact runStep_run hm hw h hc hv hrun engine (.executed executed goes)
  | ended state =>
    have hrefused := run_error hrun id
    unfold runStep
    rw [hrefused]
    exact .ended state hstages.store
  | refused refusal executed impossible =>
    have hrefused := run_error hrun refusal
    unfold runStep
    rw [hrefused]
    exact .refused refusal executed impossible hstages.store

end Engine
end CallFlow
