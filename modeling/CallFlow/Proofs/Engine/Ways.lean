import CallFlow.Proofs.Engine.Turn
import CallFlow.Proofs.Run.Visits

/-! # Where a run goes from its step

What the execution of a step came to decides where the run goes: the step waits to be run again,
the run is over, it goes back to a step that it has a step run of, or it enters a step. Each way
is taken for a reason that was settled when the call began, and each is a turn of the engine.
-/
namespace CallFlow
open Memory Work

inductive Engine.Answered (e : Engine) (b : BoundStep) : Except EngineError Outcome → Prop
  | step {result} (ready : e.stepEngine = .holding b .ready)
      (state : e.run.state = .requestingUserInput ∨ e.run.state = .stepInProgress) :
      Answered e b (.ok ⟨result, .step b⟩)
  | exit {result path} (state : e.run.state = .finished) : Answered e b (.ok ⟨result, .exit path⟩)
  | stop {branch name reason} (state : e.run.state = .error) :
      Answered e b (.error (.unrecoverable branch name reason))

inductive Way
  /-- The run stays at its step, which is ready again. -/
  | again (state : RunState)
  /-- The run stays at its step and is over. -/
  | close (state : RunState)
  | back (target : Step) (visit : StepRunRecord)
  | enter (step : Step) (state : RunState) (switched : Bool)

def Engine.tried (e : Engine) (b : BoundStep) (a : AttemptRecord) (x : StepBehavior.Execution) :
    Engine :=
  { e with
    stepEngine := .holding { b with stepRun := b.stepRun.push a } (StepEngine.conclude x.outcome).1
    run := e.run.withSession x.session }

namespace Way
variable (m : Memory) (e : Engine) (p : PositionRecord) (b : BoundStep) (a : AttemptRecord)
variable (x : StepBehavior.Execution)

def change : Way → Change
  | again _ | close _ => ⟨some a, none, none, none⟩
  | back _ visit =>
    ⟨some a, none, none, some (e.newPosition visit.id (m.nextId + 1) m.clock)⟩
  | enter step _ switched =>
    ⟨some a, if switched then some p.id else none, some (e.newVisit step (m.nextId + 1) m.clock),
      some (e.newPosition (m.nextId + 1) (m.nextId + 1 + 1) m.clock)⟩

def nextId : Way → Int
  | again _ | close _ => m.nextId + 1
  | back .. => m.nextId + 1 + 1
  | enter .. => m.nextId + 1 + 2

def step : Way → BoundStep
  | again _ | close _ => ⟨b.step, b.stepRun.push a⟩
  | back target visit => ⟨target, ⟨visit, m.attemptsOf visit.id⟩⟩
  | enter step .. => e.visiting step (m.nextId + 1) m.clock

def position : Way → PositionRecord
  | again _ | close _ => p
  | back _ visit => e.newPosition visit.id (m.nextId + 1) m.clock
  | enter .. => e.newPosition (m.nextId + 1) (m.nextId + 1 + 1) m.clock

def engine : Way → Engine
  | again state => ((e.tried b a x).inState state).holding ⟨b.step, b.stepRun.push a⟩ .ready
  | close state => (e.tried b a x).inState state
  | back target visit =>
    ((e.tried b a x).inState (retried target)).reentered ⟨target, ⟨visit, m.attemptsOf visit.id⟩⟩
      (m.nextId + 1) m.clock
  | enter step state switched =>
    let left := (e.tried b a x).inState state
    (if switched then left.onBranch step.branch else left).entered step (m.nextId + 1) m.clock

@[simp] theorem change_attempt (w : Way) : (w.change m e p a).attempt = some a := by
  cases w <;> rfl

theorem engine_session (w : Way) : (w.engine m e b a x).run.record.session = x.session := by
  cases w with
  | enter step state switched => cases switched <;> rfl
  | again | close | back => rfl

end Way

/-! ## The reasons -/

/-- The result is neither a request to replay nor one to leave for a queue. -/
def StepResult.Completes : StepResult → Prop
  | .replay _ | .exitQueue _ => False
  | _ => True

namespace Engine

structure Targets (ctx : Context) (e : Engine) (b : BoundStep) (error : StepError)
    (target : Step) : Prop where
  step : e.config.HasStep ctx.registry target
  branch : target.branch = b.step.branch
  name : target.name = targetName b.step error
  other : target.name ≠ b.step.name

inductive Denied (ctx : Context) (m : Memory) (e : Engine) (b : BoundStep) (error : StepError) :
    StopReason → Prop
  | fatal (retryable : error.retryable = false) : Denied ctx m e b error (.failed error.message)
  | offBranch {br} (retryable : error.retryable = true)
      (branch : e.config.tree.branch b.step.branch = .ok br)
      (missing : br.step? (targetName b.step error) = none) :
      Denied ctx m e b error
        (.targetOffBranch (targetName b.step error) b.step.branch error.message)
  | spent (retryable : error.retryable = true) (self : targetName b.step error = b.step.name)
      (budget : ctx.budget b.step ≤ b.stepRun.attempts.length) :
      Denied ctx m e b error (.budgetExhausted (ctx.budget b.step) error.message)
  | spentThere {target} (retryable : error.retryable = true)
      (targets : e.Targets ctx b error target)
      (budget : ctx.budget target ≤ m.tries e.run.record.id target.branch target.name) :
      Denied ctx m e b error (.budgetExhausted (ctx.budget target) error.message)

section Answers
variable (ctx : Context) (m : Memory) (e : Engine) (b : BoundStep) (a : AttemptRecord)
variable (error : StepError)

def retriedAnswer (target : BoundStep) : Except EngineError Outcome :=
  .ok ⟨.error (retryMessage ctx b.step error) true error.resetStep, .step target⟩

def stoppedAnswer (reason : StopReason) : Except EngineError Outcome :=
  .error (.unrecoverable b.step.branch b.step.name reason)

end Answers

/-- The ways that a run may go after its step was executed, with the answer to the caller. -/
inductive Goes (ctx : Context) (m : Memory) (e : Engine) (b : BoundStep) (a : AttemptRecord)
    (x : StepBehavior.Execution) : Way → Except EngineError Outcome → Prop
  | replay {message} (outcome : x.outcome = .ok (.replay message)) (input : b.step.isInput = true) :
      Goes ctx m e b a x (.again .requestingUserInput)
        (.ok ⟨.replay message, .step ⟨b.step, b.stepRun.push a⟩⟩)
  | queue {queue path} (outcome : x.outcome = .ok (.exitQueue queue))
      (built : queueExit ctx queue = .ok path) :
      Goes ctx m e b a x (.close .finished) (.ok ⟨.exitQueue queue, .exit path⟩)
  | exit {result t exit path} (outcome : x.outcome = .ok result) (completes : result.Completes)
      (template : e.config.tree.step b.step.branch b.step.name = .ok t)
      (leaves : t.exitPath = some exit)
      (built : ctx.registry.BuildsExit exit path) :
      Goes ctx m e b a x (.close .finished) (.ok ⟨result, .exit path⟩)
  | next {result t br step} (outcome : x.outcome = .ok result) (completes : result.Completes)
      (template : e.config.tree.step b.step.branch b.step.name = .ok t)
      (remains : t.exitPath = none) (branch : e.config.tree.branch b.step.branch = .ok br)
      (follows : br.following ctx.registry (some b.step.name) = .ok step)
      (known : e.config.HasStep ctx.registry step) (same : step.branch = b.step.branch) :
      Goes ctx m e b a x (.enter step .stepInProgress false)
        (.ok ⟨result, .step (e.visiting step (m.nextId + 1) m.clock)⟩)
  | last {result t br} (outcome : x.outcome = .ok result) (completes : result.Completes)
      (template : e.config.tree.step b.step.branch b.step.name = .ok t)
      (remains : t.exitPath = none) (branch : e.config.tree.branch b.step.branch = .ok br)
      (follows : br.following ctx.registry (some b.step.name) =
        .error (.unrecoverable b.step.branch b.step.name .branchExhausted)) :
      Goes ctx m e b a x (.close .error) (stoppedAnswer b .branchExhausted)
  | retry {error} (outcome : x.outcome = .error error) (retryable : error.retryable = true)
      (self : targetName b.step error = b.step.name)
      (budget : b.stepRun.attempts.length < ctx.budget b.step) :
      Goes ctx m e b a x (.again (retried b.step))
        (retriedAnswer ctx b error ⟨b.step, b.stepRun.push a⟩)
  | reset {error target s} (outcome : x.outcome = .error error)
      (retryable : error.retryable = true) (targets : e.Targets ctx b error target)
      (found : m.findStepRun e.run.record.id target.branch target.name = some s)
      (budget : m.tries e.run.record.id target.branch target.name < ctx.budget target) :
      Goes ctx m e b a x (.back target s)
        (retriedAnswer ctx b error ⟨target, ⟨s, m.attemptsOf s.id⟩⟩)
  | first {error target} (outcome : x.outcome = .error error)
      (retryable : error.retryable = true) (targets : e.Targets ctx b error target)
      (found : m.findStepRun e.run.record.id target.branch target.name = none)
      (budget : m.tries e.run.record.id target.branch target.name < ctx.budget target) :
      Goes ctx m e b a x (.enter target (retried target) false)
        (retriedAnswer ctx b error (e.visiting target (m.nextId + 1) m.clock))
  | switch {error reason br step} (outcome : x.outcome = .error error)
      (denied : e.Denied ctx m b error reason) (switches : b.step.switchTarget = some br.name)
      (branch : e.config.tree.branch br.name = .ok br)
      (follows : br.following ctx.registry (lastBefore b.step br (m.historyOf e.run.record.id)) =
        .ok step)
      (known : e.config.HasStep ctx.registry step) (same : step.branch = br.name) :
      Goes ctx m e b a x (.enter step .stepInProgress true)
        (.ok ⟨.success none, .step (e.visiting step (m.nextId + 1) m.clock)⟩)
  | stop {error reason} (outcome : x.outcome = .error error)
      (denied : e.Denied ctx m b error reason) (switches : b.step.switchTarget = none) :
      Goes ctx m e b a x (.close .error) (stoppedAnswer b reason)
  | deadEnd {error reason br on name exhausted} (outcome : x.outcome = .error error)
      (denied : e.Denied ctx m b error reason) (switches : b.step.switchTarget = some br.name)
      (branch : e.config.tree.branch br.name = .ok br)
      (follows : br.following ctx.registry (lastBefore b.step br (m.historyOf e.run.record.id)) =
        .error (.unrecoverable on name exhausted)) :
      Goes ctx m e b a x (.close .error)
        (stoppedAnswer b (.errorBranchExhausted reason br.name exhausted))

/-! ## Ways are turns -/

theorem retried_cases (step : Step) :
    retried step = .requestingUserInput ∨ retried step = .stepInProgress := by
  unfold retried
  split
  · exact .inl rfl
  · exact .inr rfl

theorem retried_suits (step : Step) : (retried step).Suits step := by
  unfold retried
  split
  · exact .inr (.inr (.inr ⟨rfl, ‹_›⟩))
  · exact .inl rfl

structure Takes (registry : Registry) (m : Memory) (e : Engine) (p : PositionRecord)
    (b : BoundStep) (a : AttemptRecord) (x : StepBehavior.Execution) (w : Way)
    (answer : Except EngineError Outcome) : Prop where
  turn : e.Turn registry m (w.change m e p a) (w.nextId m) (w.engine m e b a x) (w.position m e p)
    (w.step m e b a)
  answered : (w.engine m e b a x).Answered (w.step m e b a) answer

section Takes
variable {ctx : Context} {m : Memory} {e : Engine} {p : PositionRecord} {b : BoundStep}
variable {a : AttemptRecord} {x : StepBehavior.Execution} {state : RunState}
variable (hm : m.Sound) (h : e.Seated ctx.registry m p b) (ha : a.stepRun = b.stepRun.record.id)
  (hid : a.id = m.nextId)
include hm h ha hid

theorem Seated.takes_again {result : StepResult}
    (hstate : state = .requestingUserInput ∨ state = .stepInProgress)
    (hsuits : state.Suits b.step) :
    e.Takes ctx.registry m p b a x (.again state)
      (.ok ⟨result, .step ⟨b.step, b.stepRun.push a⟩⟩) :=
  ⟨h.stay hm ha hid ⟨rfl, rfl, rfl, rfl⟩ h.position rfl ⟨.ready, rfl, .inl rfl⟩ hsuits,
    .step rfl hstate⟩

theorem Seated.turn_over (hstate : state = .finished ∨ state = .error) :
    e.Turn ctx.registry m ⟨some a, none, none, none⟩ (m.nextId + 1)
      ((e.tried b a x).inState state) p ⟨b.step, b.stepRun.push a⟩ :=
  h.stay hm ha hid ⟨rfl, rfl, rfl, rfl⟩ h.position rfl ⟨_, rfl, .inr hstate⟩
    (hstate.elim (fun hs => .inr (.inl hs)) fun hs => .inr (.inr (.inl hs)))

theorem Seated.takes_exit {result : StepResult} {path : ExitPath} :
    e.Takes ctx.registry m p b a x (.close .finished) (.ok ⟨result, .exit path⟩) :=
  ⟨h.turn_over hm ha hid (.inl rfl), .exit rfl⟩

theorem Seated.takes_stop {reason : StopReason} :
    e.Takes ctx.registry m p b a x (.close .error) (stoppedAnswer b reason) :=
  ⟨h.turn_over hm ha hid (.inr rfl), .stop rfl⟩

theorem Seated.takes_enter {step : Step} {switched : Bool} {result : StepResult}
    (hstep : e.config.HasStep ctx.registry step)
    (hbranch : switched = false → step.branch = b.step.branch)
    (hstate : state = .requestingUserInput ∨ state = .stepInProgress)
    (hsuits : state.Suits step) :
    e.Takes ctx.registry m p b a x (.enter step state switched)
      (.ok ⟨result, .step (e.visiting step (m.nextId + 1) m.clock)⟩) := by
  have hfits := h.fits_attempt hm ha hid (k := if switched then some p.id else none) (by
    rintro id hk
    cases switched
    · cases hk
    · exact (Option.some.inj hk).symm)
  cases switched with
  | false =>
    have hon : e.run.record.branch = step.branch := h.branch_eq.trans (hbranch rfl).symm
    exact ⟨.enter (f := (e.tried b a x).inState state) hfits h.underway.recorded hstep
      ⟨rfl, rfl, rfl, rfl⟩ hon (h.nextOrder_eq h.position) _ (.inl hsuits), .step rfl hstate⟩
  | true =>
    exact ⟨.enter (f := ((e.tried b a x).inState state).onBranch step.branch) hfits
      h.underway.recorded hstep ⟨rfl, rfl, rfl, rfl⟩ rfl (h.nextOrder_eq h.position) _
      (.inl hsuits), .step rfl hstate⟩

theorem Seated.takes_back {error : StepError} {target : Step} {s : StepRunRecord}
    {result : StepResult} (hw : e.config.tree.WellFormed ctx.registry)
    (ht : e.Targets ctx b error target)
    (hfound : m.findStepRun e.run.record.id target.branch target.name = some s) :
    e.Takes ctx.registry m p b a x (.back target s)
      (.ok ⟨result, .step ⟨target, ⟨s, m.attemptsOf s.id⟩⟩⟩) := by
  obtain ⟨hget, hrun, hsb, hsn⟩ := hm.findStepRun hfound
  obtain ⟨built, hbuilt, hvisits⟩ := h.underway.recorded.built hget hrun
  obtain rfl : target = built := ht.step.unique hw hbuilt (hsb.symm.trans hvisits.branch)
    (hsn.symm.trans hvisits.name)
  have hother : a.stepRun ≠ s.id := by
    intro heq
    obtain ⟨-, -, hcur⟩ := h.current_run hm
    rw [← ha, heq, hget] at hcur
    obtain rfl : s = b.stepRun.record := Option.some.inj hcur
    exact ht.other (hsn.symm.trans h.visits.name)
  have hfits := h.fits_attempt hm ha hid (k := none) fun _ hk => by cases hk
  have hon : e.run.record.branch = target.branch := h.branch_eq.trans ht.branch.symm
  exact ⟨.back (f := (e.tried b a x).inState (retried target)) hfits h.underway.recorded ht.step
    ⟨rfl, rfl, rfl, rfl⟩ hon (h.nextOrder_eq h.position) _ hget hrun hvisits
    (by rintro _ ⟨⟩; exact hother) (retried_suits target), .step rfl (retried_cases target)⟩

theorem Goes.takes {w : Way} {answer : Except EngineError Outcome}
    (hw : e.config.tree.WellFormed ctx.registry) (hg : e.Goes ctx m b a x w answer) :
    e.Takes ctx.registry m p b a x w answer := by
  cases hg with
  | replay outcome input =>
    exact h.takes_again hm ha hid (.inl rfl) (.inr (.inr (.inr ⟨rfl, input⟩)))
  | queue => exact h.takes_exit hm ha hid
  | exit => exact h.takes_exit hm ha hid
  | next _ _ _ _ _ _ known same =>
    exact h.takes_enter hm ha hid known (fun _ => same) (.inr rfl) (.inl rfl)
  | last => exact h.takes_stop hm ha hid
  | retry => exact h.takes_again hm ha hid (retried_cases b.step) (retried_suits b.step)
  | reset _ _ targets found => exact h.takes_back hm ha hid hw targets found
  | @first error step _ _ targets =>
    exact h.takes_enter hm ha hid targets.step (fun _ => targets.branch) (retried_cases step)
      (retried_suits step)
  | switch _ _ _ _ _ known same =>
    exact h.takes_enter hm ha hid known nofun (.inr rfl) (.inl rfl)
  | stop => exact h.takes_stop hm ha hid
  | deadEnd => exact h.takes_stop hm ha hid

end Takes
end Engine
end CallFlow
