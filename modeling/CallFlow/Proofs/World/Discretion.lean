import CallFlow.Proofs.Step.Execution
import CallFlow.Proofs.World.Stopping

/-! # What callers hear of internal failures

A failure that is not meant for callers has a text, and a step may word it by what its services say.
The text is kept with the attempt and with the reason why a run is given up. Nothing else depends on
it: not what the caller is told, nor where the run goes on, nor what else is stored.
-/
namespace CallFlow
open Memory Work

def Context.serving (ctx : Context) (services : Services) : Context := { ctx with services }

/-- Two internal failures that differ in no more than their text. -/
structure StepError.SameButText (error error' : StepError) : Prop where
  retryable : error'.retryable = error.retryable
  resetStep : error'.resetStep = error.resetStep
  inside : error.userFacing = false
  inside' : error'.userFacing = false

namespace StepError.SameButText
variable {error error' : StepError} (h : error.SameButText error') (step : Step)
include h

theorem targetName : targetName step error' = targetName step error := by
  rw [Work.targetName, h.resetStep, Work.targetName]

theorem retryMessage (ctx : Context) (services : Services) :
    retryMessage (ctx.serving services) step error' = retryMessage ctx step error := by
  unfold Work.retryMessage
  rw [h.inside, h.inside']
  rfl

end StepError.SameButText

/-! ## Runs that differ in an attempt -/

inductive BoundStep.SameBut (a a' : AttemptRecord) : BoundStep → BoundStep → Prop
  | same (b : BoundStep) : SameBut a a' b b
  | attempted (step : Step) (stepRun : StepRun) :
      SameBut a a' ⟨step, stepRun.push a⟩ ⟨step, stepRun.push a'⟩

/-- The caller is told the same, and the run goes on with the same step; or it is given up at the
same step, whatever the reasons. -/
inductive SameAnswer (a a' : AttemptRecord) :
    Except EngineError Outcome → Except EngineError Outcome → Prop
  | step {result b b'} (same : b.SameBut a a' b') :
      SameAnswer a a' (.ok ⟨result, .step b⟩) (.ok ⟨result, .step b'⟩)
  | stop {branch name} (reason reason' : StopReason) :
      SameAnswer a a' (.error (.unrecoverable branch name reason))
        (.error (.unrecoverable branch name reason'))

namespace Way
variable {m : Memory} {e : Engine} {p : PositionRecord} {b : BoundStep} {a a' : AttemptRecord}
variable {x x' : StepBehavior.Execution}

theorem step_sameBut (w : Way) : (w.step m e b a).SameBut a a' (w.step m e b a') := by
  cases w with
  | again | close => exact .attempted b.step b.stepRun
  | back | enter => exact .same _

theorem engine_run (w : Way) (h : x'.session = x.session) :
    (w.engine m e b a' x').run = (w.engine m e b a x).run := by
  cases w with
  | again | close | back =>
    simp only [engine, Engine.tried, h]
    rfl
  | enter step state switched =>
    cases switched <;>
    · simp only [engine, Engine.tried, h]
      rfl

theorem engine_position (w : Way) :
    (w.engine m e b a' x').position = (w.engine m e b a x).position := by
  cases w with
  | again | close | back => rfl
  | enter step state switched => cases switched <;> rfl

/-- What is stored on two ways that are the same differs in the attempts only. -/
theorem post_eq (w : Way) (r : RunRecord) :
    m.post (w.change m e p a') (w.nextId m) r =
      { m.post (w.change m e p a) (w.nextId m) r with attempts := m.attempts.insert a'.id a' } := by
  rw [Memory.post_eq, Memory.post_eq]
  cases w <;> rfl

theorem post_attempts (w : Way) (r : RunRecord) :
    (m.post (w.change m e p a) (w.nextId m) r).attempts = m.attempts.insert a.id a := by
  rw [Memory.post_eq, change_attempt]
  rfl

end Way

namespace Engine
variable {ctx : Context} {m : Memory} {e : Engine} {p : PositionRecord} {b : BoundStep}
variable {a a' : AttemptRecord} {x x' : StepBehavior.Execution} {w w' : Way}
variable {answer answer' : Except EngineError Outcome} {error error' : StepError}
variable {services : Services} {raw : Option String}

section Alike
variable (hw : e.config.tree.WellFormed ctx.registry) (hsame : error.SameButText error')
include hsame

theorem Grants.sameButText :
    e.Grants (ctx.serving services) m b error' ↔ e.Grants ctx m b error := by
  unfold Grants
  rw [hsame.targetName]
  exact Iff.rfl

include hw

theorem Targets.sameButText {target target' : Step} (ht : e.Targets ctx b error target)
    (ht' : e.Targets (ctx.serving services) b error' target') : target' = target := by
  refine ht'.step.unique hw ht.step (ht'.branch.trans ht.branch.symm) ?_
  rw [ht'.name, hsame.targetName, ht.name]

theorem Retries.sameButText (hr : e.Retries ctx m b error w)
    (hr' : e.Retries (ctx.serving services) m b error' w') : w' = w := by
  cases hr with
  | self self =>
    cases hr' with
    | self => rfl
    | back targets | first targets =>
      exact absurd (targets.name.trans ((hsame.targetName _).trans self)) targets.other
  | back targets found =>
    cases hr' with
    | self self =>
      exact absurd (targets.name.trans ((hsame.targetName _).symm.trans self)) targets.other
    | back targets' found' =>
      obtain rfl := targets.sameButText hw hsame targets'
      rw [Option.some.inj (found'.symm.trans found)]
    | first targets' found' =>
      obtain rfl := targets.sameButText hw hsame targets'
      cases found'.symm.trans found
  | first targets found =>
    cases hr' with
    | self self =>
      exact absurd (targets.name.trans ((hsame.targetName _).symm.trans self)) targets.other
    | back targets' found' =>
      obtain rfl := targets.sameButText hw hsame targets'
      cases found'.symm.trans found
    | first targets' =>
      obtain rfl := targets.sameButText hw hsame targets'
      rfl

end Alike

theorem switchBranch_unique {br br' : Branch} (hs : b.step.switchTarget = some br.name)
    (hb : e.config.tree.branch br.name = .ok br) (hs' : b.step.switchTarget = some br'.name)
    (hb' : e.config.tree.branch br'.name = .ok br') : br' = br := by
  rw [Option.some.inj (hs.symm.trans hs')] at hb
  exact Except.ok.inj (hb'.symm.trans hb)

/-- A failure that is granted no retry leads the same way for whatever reason. -/
theorem GivesWay.unique (h : e.GivesWay ctx m b w answer)
    (h' : e.GivesWay (ctx.serving services) m b w' answer') :
    w' = w ∧ SameAnswer a a' answer answer' := by
  cases h with
  | switch switches branch follows =>
    cases h' with
    | switch switches' branch' follows' =>
      obtain rfl := switchBranch_unique switches branch switches' branch'
      cases follows'.symm.trans follows
      exact ⟨rfl, .step (.same _)⟩
    | stop switches' => cases switches'.symm.trans switches
    | deadEnd switches' branch' follows' =>
      obtain rfl := switchBranch_unique switches branch switches' branch'
      cases follows'.symm.trans follows
  | stop switches =>
    cases h' with
    | switch switches' | deadEnd switches' => cases switches'.symm.trans switches
    | stop => exact ⟨rfl, .stop _ _⟩
  | deadEnd switches branch follows =>
    cases h' with
    | switch switches' branch' follows' =>
      obtain rfl := switchBranch_unique switches branch switches' branch'
      cases follows'.symm.trans follows
    | stop switches' => cases switches'.symm.trans switches
    | deadEnd => exact ⟨rfl, .stop _ _⟩

/-- Where an internal failure leads, and what the caller is told, does not depend on its text. -/
theorem Goes.sameButText (hw : e.config.tree.WellFormed ctx.registry)
    (h : e.Seated ctx.registry m p b) (hsame : error.SameButText error')
    (hg : e.Goes ctx m b a x w answer) (hout : x.outcome = .error error)
    (hg' : e.Goes (ctx.serving services) m b a' x' w' answer')
    (hout' : x'.outcome = .error error') : w' = w ∧ SameAnswer a a' answer answer' := by
  have hgrants : e.Grants (ctx.serving services) m b error' ↔ e.Grants ctx m b error :=
    Grants.sameButText hsame
  have hw' : e.config.tree.WellFormed (ctx.serving services).registry := hw
  have h' : e.Seated (ctx.serving services).registry m p b := h
  rcases hg.of_error hw h hout with
    ⟨hretryable, hgranted, hretries, rfl⟩ | ⟨hdenied, hgives⟩ <;>
  rcases hg'.of_error hw' h' hout' with
    ⟨hretryable', hgranted', hretries', rfl⟩ | ⟨hdenied', hgives'⟩
  · obtain rfl := hretries.sameButText hw hsame hretries'
    refine ⟨rfl, ?_⟩
    unfold retriedAnswer
    rw [hsame.retryMessage, hsame.resetStep]
    exact .step (w'.step_sameBut)
  · exact absurd ⟨hsame.retryable.trans hretryable, hgrants.mpr hgranted⟩ hdenied'
  · exact absurd ⟨hsame.retryable.symm.trans hretryable', hgrants.mp hgranted'⟩ hdenied
  · exact hgives.unique hgives'

/-! ## Calls -/

/-- A call executes the step of an engine, and the step fails. It may tell the failure as one or
report it as a result, and leaves the session as it is then. -/
structure FailsWith (ctx : Context) (e : Engine) (raw : Option String) (b : BoundStep)
    (error : StepError) (session : Session) : Prop where
  current : e.stepEngine.current? = some b
  executes : (e.execution? ctx raw).isSome = true
  fails : ∃ input, b.step.behavior.Given raw input ∧
    StepBehavior.failure? (b.step.behavior.run ⟨input, ctx.services⟩ e.run.record.session).1 =
      some error ∧
    (b.step.behavior.run ⟨input, ctx.services⟩ e.run.record.session).2 = session

theorem FailsWith.execution {session : Session} (h : e.FailsWith ctx raw b error session) :
    ∃ input, b.step.behavior.Given raw input ∧
      e.execution? ctx raw = some ⟨input, .error error, session⟩ := by
  obtain ⟨hb, hexecutes, input, hgiven, hfailure, rfl⟩ := h
  obtain ⟨x, hx⟩ := Option.isSome_iff_exists.mp hexecutes
  refine ⟨input, hgiven, ?_⟩
  rw [hx, execution_of_current hb hx, hgiven.execute, StepBehavior.perform_of_failure hfailure]

/-- Two calls from the same store that differ in no more than the words of a failure. They made an
attempt each, of which no more than the result differs, and all else that they left is the same. The
answers are the same but for the attempt and for why a run is given up. -/
structure DifferInWords (m : Memory) (a a' : AttemptRecord)
    (ran ran' : (Except EngineError Outcome × Engine) × Memory) : Prop where
  answer : SameAnswer a a' ran.1.1 ran'.1.1
  run : ran'.1.2.run = ran.1.2.run
  position : ran'.1.2.position = ran.1.2.position
  result : a' = { a with result := a'.result }
  fresh : m.attempts.get? a.id = none
  attempts : ran.2.attempts = m.attempts.insert a.id a
  store : ran'.2 = { ran.2 with attempts := m.attempts.insert a.id a' }
  history : ∀ run, ran'.2.historyOf run = ran.2.historyOf run ∧
    ∀ s, (ran'.2.attemptsOf s).length = (ran.2.attemptsOf s).length

def HidesText (ctx : Context) (m : Memory) (e : Engine) : Prop :=
  ∀ raw b error error' session services, e.FailsWith ctx raw b error session →
    e.FailsWith (ctx.serving services) raw b error' session → error.SameButText error' →
    ∃ a a', a.stepRun = b.stepRun.record.id ∧
      DifferInWords m a a' (e.runStep ctx raw m) (e.runStep (ctx.serving services) raw m)

theorem newAttempt_sameButText (hsame : error.SameButText error') (b : BoundStep)
    (raw : Option String) (input : Option StepInput) (session : Session) (id : Int)
    (clock : String) :
    b.newAttempt raw ⟨input, .error error', session⟩ id clock =
      { b.newAttempt raw ⟨input, .error error, session⟩ id clock with
        result := (StepResult.ofError error').toJson } := by
  simp only [BoundStep.newAttempt, NewAttempt.toRecord, StepEngine.newAttempt, hsame.retryable,
    StepEngine.recordedResult]

/-- Two calls that went the same way after failures of the same session. -/
theorem Went.differInWords {r : RunRecord} (hm : m.Sound)
    (hwent : e.Went ctx m p b raw x r w answer)
    (hwent' : e.Went (ctx.serving services) m p b raw x' r w answer')
    (hsession : x'.session = x.session)
    (hattempt : b.newAttempt raw x' m.nextId m.clock =
      { b.newAttempt raw x m.nextId m.clock with
        result := (b.newAttempt raw x' m.nextId m.clock).result })
    (hanswer : SameAnswer (b.newAttempt raw x m.nextId m.clock)
      (b.newAttempt raw x' m.nextId m.clock) answer answer') :
    DifferInWords m (b.newAttempt raw x m.nextId m.clock) (b.newAttempt raw x' m.nextId m.clock)
      (e.runStep ctx raw m) (e.runStep (ctx.serving services) raw m) := by
  let a := b.newAttempt raw x m.nextId m.clock
  let a' := b.newAttempt raw x' m.nextId m.clock
  have hrun : (w.engine m e b a' x').run = (w.engine m e b a x).run := w.engine_run hsession
  have hstored : (w.engine m e b a' x').stored (r.version + 1) m.clock =
      (w.engine m e b a x).stored (r.version + 1) m.clock := by
    simp only [Engine.stored, hrun]
  have hstore : m.post (w.change m e p a') (w.nextId m)
      ((w.engine m e b a' x').stored (r.version + 1) m.clock) = { m.post (w.change m e p a)
        (w.nextId m) ((w.engine m e b a x).stored (r.version + 1) m.clock) with
          attempts := m.attempts.insert a'.id a' } := by
    rw [hstored]
    exact w.post_eq _
  rw [hwent.ran, hwent'.ran]
  constructor
  case answer => exact hanswer
  case run => exact congrArg (·.atVersion (r.version + 1)) hrun
  case position => exact w.engine_position
  case result => exact hattempt
  case fresh => exact hm.attempts_fresh (Int.le_refl _)
  case attempts => exact w.post_attempts _
  case store => exact hstore
  case history =>
    refine fun run => ⟨(congrArg (·.historyOf run) hstore).trans rfl, fun s => ?_⟩
    -- the attempts are at the same step run
    have hcount {c c' : AttemptRecord} (hat : c'.stepRun = c.stepRun) :
        ([c'].filter (·.stepRun = s)).length = ([c].filter (·.stepRun = s)).length := by
      simp only [List.filter_cons, hat]
      split <;> rfl
    rw [post_attemptsOf hm hwent.turn.fits, post_attemptsOf hm hwent'.turn.fits,
      Way.change_attempt, Way.change_attempt, List.length_append, List.length_append]
    exact congrArg ((m.attemptsOf s).length + ·) (hcount rfl)

theorem Seated.hidesText (hm : m.Sound) (hw : e.config.tree.WellFormed ctx.registry)
    (h : e.Seated ctx.registry m p b) : e.HidesText ctx m := by
  intro raw b' error error' session services hfails hfails' hsame
  obtain rfl := Option.some.inj (h.holds.current.symm.trans hfails.current)
  obtain ⟨input, hgiven, hx⟩ := hfails.execution
  obtain ⟨input', hgiven', hx'⟩ := hfails'.execution
  obtain rfl := hgiven.unique hgiven'
  have hw' : e.config.tree.WellFormed (ctx.serving services).registry := hw
  have h' : e.Seated (ctx.serving services).registry m p b := h
  obtain ⟨r, w, answer, hwent⟩ := h.went hm hw hx not_impossible_error
  obtain ⟨r', w', answer', hwent'⟩ := h'.went hm hw' hx' not_impossible_error
  obtain rfl : r' = r := Option.some.inj (hwent'.stored.symm.trans hwent.stored)
  obtain ⟨rfl, hanswer⟩ := hwent.goes.sameButText hw h hsame rfl hwent'.goes rfl
  exact ⟨_, _, rfl, hwent.differInWords hm hwent' rfl (newAttempt_sameButText hsame ..) hanswer⟩

end Engine

namespace World
variable {registry : Registry} {w : World} {id : Int} {r : RunRecord}

/-- The text of an internal failure, told as one or reported as a result, changes neither what the
caller is told nor where the run goes. The stores differ in the result of the new attempt only. -/
theorem failure_text_stays_inside (h : Reachable registry w)
    (hr : w.store.runs.get? id = some r) :
    w.AtCurrentStep registry id r fun e m => e.HidesText (w.context registry) m :=
  h.atCurrentStep hr fun hm hw hseated => Engine.Seated.hidesText hm hw hseated

end World

/-! ## A step that words its failures by a service -/

namespace Orders

def ask (ctx : StepContext) (session : Session) : Except StepError StepResult × Session :=
  match ctx.service "orders" with
  | .error e => (.error e, session)
  | .ok (.str trouble) => (.error (.internal trouble), session)
  | .ok _ => (.ok (.error "the orders cannot be read" true none), session)

def behavior : StepBehavior where
  typeName := "orders"
  inputType := none
  prompt := none
  errorMessage := none
  run := ask
  saveResult := StepBehavior.keepNothing

def registry : Registry := Registry.builtins.withStep "orders" (fun _ => .ok behavior) ["orders"]

def find : StepTemplate where
  name := "find"
  stepType := "orders"
  arguments := .empty
  actions := []
  exitPath := some ⟨"hangup", .empty⟩
  resetTarget := none
  switchTarget := none
  retryCount := none

def counter : Branch := ⟨"counter", [find], true⟩

def flow : FlowConfig := ⟨"orders", ⟨[counter]⟩⟩

def troubled : World :=
  ((World.deployed flow counter 1).step registry (.call 0 .prepare)).step registry
    (.provide (Table.empty.insert "orders" (.str "no route to 10.0.0.7")) .standard)

theorem reachable_troubled : World.Reachable registry troubled :=
  ((World.grantsUpTo_deployed rfl rfl 1).reachable.step (.call 0 .prepare)).step _

end Orders

namespace World

/-- The caller is told the same of a service that is out of reach as of orders that cannot be
read. -/
theorem failure_text_stays_inside_orders : ∃ (e : Engine) (b : BoundStep) (a a' : AttemptRecord)
    (error error' : StepError) (services : Services),
    Orders.troubled.engine? 0 = some e ∧ error.message = "no route to 10.0.0.7" ∧
    error'.message = "the orders cannot be read" ∧
    e.FailsWith (Orders.troubled.context Orders.registry) none b error .empty ∧
    e.FailsWith ((Orders.troubled.context Orders.registry).serving services) none b error'
      .empty ∧
    Engine.DifferInWords Orders.troubled.store a a'
      (e.runStep (Orders.troubled.context Orders.registry) none Orders.troubled.store)
      (e.runStep ((Orders.troubled.context Orders.registry).serving services) none
        Orders.troubled.store) := by
  let services : Services := Table.empty.insert "orders" .null
  obtain ⟨e, p, b, error, error', he, hid, hv, hp, hb, hunasked, hx, hx', hfails, hfails', hsession,
      hsession', hsame, htext, htext'⟩ : ∃ e p b error error',
      Orders.troubled.engine? 0 = some e ∧ e.run.record.id = 1 ∧
      (Orders.troubled.store.runs.get? 1).map (·.version) = some e.run.record.version ∧
      e.position = some p ∧ e.stepEngine.current? = some b ∧ b.step.behavior.inputType = none ∧
      (e.execution? (Orders.troubled.context Orders.registry) none).isSome = true ∧
      (e.execution? ((Orders.troubled.context Orders.registry).serving services) none).isSome =
        true ∧
      StepBehavior.failure? (b.step.behavior.run ⟨none, Orders.troubled.services⟩
        e.run.record.session).1 = some error ∧
      StepBehavior.failure? (b.step.behavior.run ⟨none, services⟩ e.run.record.session).1 =
        some error' ∧
      (b.step.behavior.run ⟨none, Orders.troubled.services⟩ e.run.record.session).2 = .empty ∧
      (b.step.behavior.run ⟨none, services⟩ e.run.record.session).2 = .empty ∧
      error.SameButText error' ∧ error.message = "no route to 10.0.0.7" ∧
      error'.message = "the orders cannot be read" :=
    ⟨_, _, _, _, _, rfl, rfl, rfl, rfl, rfl, rfl, rfl, rfl, rfl, rfl, rfl, rfl,
      ⟨rfl, rfl, rfl, rfl⟩, rfl, rfl⟩
  obtain ⟨r, hr, hready⟩ := exists_ready he hid hp hv
  obtain ⟨-, -, hhides⟩ :=
    (failure_text_stays_inside Orders.reachable_troubled hr).ready 0 e hready
  have htold : e.FailsWith (Orders.troubled.context Orders.registry) none b error .empty :=
    ⟨hb, hx, none, .nothing hunasked, hfails, hsession⟩
  have hreported : e.FailsWith ((Orders.troubled.context Orders.registry).serving services) none b
      error' .empty := ⟨hb, hx', none, .nothing hunasked, hfails', hsession'⟩
  obtain ⟨a, a', -, hdiffer⟩ := hhides none b error error' .empty services htold hreported hsame
  exact ⟨e, b, a, a', error, error', services, he, htext, htext', htold, hreported, hdiffer⟩

end World
end CallFlow
