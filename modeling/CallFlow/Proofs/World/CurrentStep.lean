import CallFlow.Proofs.Engine.Raced
import CallFlow.Proofs.World.Switching

/-! # Runs of the current step

The current step of a run is run by a fresh engine, or by one in use that was prepared and not
overtaken. Both are seated in a sound store, so what holds of seated engines holds of every engine
that can run the step. Where the step was executed and does not ask for what it cannot be given,
the store afterwards is told by the way that the run went.
-/
namespace CallFlow
open Memory Work

def RunRecord.left (r : RunRecord) (state : RunState) (session : Session) (clock : String) :
    RunRecord :=
  { r with state := state.name, session, version := r.version + 1, updatedAt := clock }

namespace Engine
variable {ctx : Context} {m : Memory} {e e' : Engine} {p : PositionRecord} {b : BoundStep}
variable {a : AttemptRecord} {x : StepBehavior.Execution} {w : Way} {r : RunRecord}
variable {raw : Option String} {answer : Except EngineError Outcome}

/-! ## Calls that execute the step -/

structure Went (ctx : Context) (m : Memory) (e : Engine) (p : PositionRecord) (b : BoundStep)
    (raw : Option String) (x : StepBehavior.Execution) (r : RunRecord) (w : Way)
    (answer : Except EngineError Outcome) : Prop where
  stored : m.runs.get? e.run.record.id = some r
  goes : e.Goes ctx m b (b.newAttempt raw x m.nextId m.clock) x w answer
  turn : e.Turn ctx.registry m (w.change m e p (b.newAttempt raw x m.nextId m.clock)) (w.nextId m)
    (w.engine m e b (b.newAttempt raw x m.nextId m.clock) x) (w.position m e p)
    (w.step m e b (b.newAttempt raw x m.nextId m.clock))
  ran : e.runStep ctx raw m =
    ((answer, (w.engine m e b (b.newAttempt raw x m.nextId m.clock) x).atVersion (r.version + 1)),
      m.post (w.change m e p (b.newAttempt raw x m.nextId m.clock)) (w.nextId m)
        ((w.engine m e b (b.newAttempt raw x m.nextId m.clock) x).stored (r.version + 1) m.clock))

theorem Seated.went (hm : m.Sound) (hw : e.config.tree.WellFormed ctx.registry)
    (h : e.Seated ctx.registry m p b) (hx : e.execution? ctx raw = some x)
    (hpossible : ∀ {failure}, ¬ e.Impossible ctx x.outcome failure) :
    ∃ r w answer, e.Went ctx m p b raw x r w answer := by
  obtain ⟨r, hr, hv⟩ := h.held.version
  have hran := h.runStep_ran hm hw hr hv raw
  rcases hrun : e.runStep ctx raw m with ⟨⟨answer, e'⟩, m'⟩
  rw [hrun] at hran
  cases hran with
  | committed played =>
    have hturn := (played.turn hm hw h).1
    cases played with
    | prompted prompts => cases prompts.waits.symm.trans hx
    | executed executed goes =>
      cases executed.symm.trans hx
      exact ⟨r, _, _, hr, goes, hturn, hrun⟩
  | ended state =>
    obtain ⟨hfinished, herror⟩ := not_over_of_execution hx
    exact (state.elim hfinished herror).elim
  | refused refusal executed impossible =>
    cases executed.symm.trans hx
    exact absurd impossible hpossible

/-! ## What is stored afterwards -/

theorem Current.stored_left {session : Session} (h : e.Current m)
    (hr : m.runs.get? e.run.record.id = some r)
    (he : e'.run.record = { e.run.record with session }) (clock : String) :
    e'.stored (r.version + 1) clock = r.left e'.run.state session clock := by
  have hsame := h.record_eq hr
  simp only [Engine.stored, Run.toRecord, he, RunRecord.left]
  rw [hsame]

end Engine

namespace Way

def switches : Way → Bool
  | enter _ _ switched => switched
  | again _ | close _ | back .. => false

def moves : Way → Bool
  | back .. | enter .. => true
  | again _ | close _ => false

def kept? (b : BoundStep) : Way → Option StepRunRecord
  | again _ | close _ => some b.stepRun.record
  | back _ visit => some visit
  | enter .. => none

end Way

/-- The run came to an end where it stands. An attempt is on record for it, and nothing else is
new but its row. -/
structure Memory.Closes (m : Memory) (r : RunRecord) (a : AttemptRecord) (session : Session)
    (state : RunState) (m' : Memory) : Prop where
  runs : m'.runs = m.runs.insert r.id (r.left state session m.clock)
  stepRuns : m'.stepRuns = m.stepRuns
  positions : m'.positions = m.positions
  fresh : m.attempts.get? a.id = none
  attempts : m'.attempts = m.attempts.insert a.id a

/-- The run stands at a step of its branch. It has gone on with a step run that it had, or else
with a new one, and it is at a new position if it has moved. Nothing else is new but an attempt and
the row of the run. -/
structure Engine.Arrives (registry : Registry) (m : Memory) (r : RunRecord) (a : AttemptRecord)
    (session : Session) (state : RunState) (kept : Option StepRunRecord) (moved : Bool) (e' : Engine)
    (m' : Memory) (b' : BoundStep) (p' : PositionRecord) : Prop where
  runs : m'.runs = m.runs.insert r.id (r.left state session m.clock)
  attempts : m'.attempts = m.attempts.insert a.id a
  stepRuns : m'.stepRuns = if kept.isSome then m.stepRuns else
    m.stepRuns.insert b'.stepRun.record.id b'.stepRun.record
  positions : m'.positions = if moved then m.positions.insert p'.id p' else m.positions
  same : ∀ s, kept = some s → b'.stepRun.record = s
  new : kept = none → m.stepRuns.get? b'.stepRun.record.id = none ∧ b'.stepRun.attempts = []
  listed : m'.positionsOf r.id = m.positionsOf r.id ++ if moved then [p'] else []
  seated : e'.Seated registry m' p' b'

namespace Engine.Went
variable {ctx : Context} {m : Memory} {e : Engine} {p : PositionRecord} {b : BoundStep}
variable {x : StepBehavior.Execution} {w : Way} {r : RunRecord} {raw : Option String}
variable {answer : Except EngineError Outcome} {state : RunState}
variable (hm : m.Sound) (h : e.Seated ctx.registry m p b) (hg : e.Went ctx m p b raw x r w answer)
include hm h hg

omit hm h in
theorem answered : e.runStep ctx raw m =
    ((answer, (e.runStep ctx raw m).1.2), (e.runStep ctx raw m).2) := by
  rw [hg.ran]

/-- Unless the run switches branch, no more of its row changes than its state and its session. -/
theorem runs (hway : w.switches = false) : (e.runStep ctx raw m).2.runs = m.runs.insert r.id
    (r.left (w.engine m e b (b.newAttempt raw x m.nextId m.clock) x).run.state x.session
      m.clock) := by
  obtain ⟨hr, -, -, hran⟩ := hg
  have hid : r.id = e.run.record.id := (hm.runs hr).1
  have hkept : (w.engine m e b (b.newAttempt raw x m.nextId m.clock) x).run.record =
      { e.run.record with session := x.session } := by
    cases w with
    | again | close | back => rfl
    | enter step state switched =>
      obtain rfl : switched = false := hway
      rfl
  rw [hran, post_runs, h.held.stored_left hr hkept]
  rfl

theorem attemptsOf_current : (e.runStep ctx raw m).2.attemptsOf b.stepRun.record.id =
    b.stepRun.attempts ++ [b.newAttempt raw x m.nextId m.clock] := by
  rw [hg.ran, post_attemptsOf hm hg.turn.fits, Way.change_attempt, h.attempts]
  simp [BoundStep.newAttempt, NewAttempt.toRecord, StepEngine.newAttempt]

theorem attemptsOf_length : ((e.runStep ctx raw m).2.attemptsOf b.stepRun.record.id).length =
    (m.attemptsOf b.stepRun.record.id).length + 1 := by
  rw [hg.attemptsOf_current hm h, List.length_append, List.length_singleton, h.attempts]

omit h in
theorem stepRuns_get? {id : Int} {s : StepRunRecord} (hs : m.stepRuns.get? id = some s) :
    (e.runStep ctx raw m).2.stepRuns.get? id = some s := by
  rw [hg.ran]
  exact (post_stepRuns_get? hm hg.turn.fits).mpr (.inl hs)

theorem closes (hway : w = .close state) : m.Closes r (b.newAttempt raw x m.nextId m.clock)
    x.session state (e.runStep ctx raw m).2 := by
  subst hway
  constructor
  case runs => exact hg.runs hm h rfl
  case fresh => exact hm.attempts_fresh (Int.le_refl _)
  all_goals
    rw [hg.ran, post_eq]
    rfl

theorem arrives (hway : w.switches = false) :
    Arrives ctx.registry m r (b.newAttempt raw x m.nextId m.clock) x.session
      (w.engine m e b (b.newAttempt raw x m.nextId m.clock) x).run.state (w.kept? b) w.moves
      (e.runStep ctx raw m).1.2 (e.runStep ctx raw m).2
      (w.step m e b (b.newAttempt raw x m.nextId m.clock)) (w.position m e p) := by
  have hturn := hg.turn
  have hid : r.id = e.run.record.id := (hm.runs hg.stored).1
  have hunmarked : (w.change m e p (b.newAttempt raw x m.nextId m.clock)).marked = none := by
    cases w with
    | again | close | back => rfl
    | enter step state switched =>
      obtain rfl : switched = false := hway
      rfl
  constructor
  case runs => exact hg.runs hm h hway
  case seated =>
    rw [hg.ran]
    exact hturn.seated hm h.underway.recorded (r.version + 1) m.clock
  case attempts =>
    rw [hg.ran, post_eq, Way.change_attempt]
    rfl
  case stepRuns =>
    rw [hg.ran, post_eq]
    cases w <;> rfl
  case positions =>
    rw [hg.ran, post_eq, markedPositions, hunmarked]
    cases w <;> rfl
  case same =>
    intro s hs
    cases w with
    | again | close | back => exact Option.some.inj hs
    | enter => cases hs
  case new =>
    intro hnone
    cases w with
    | again | close | back => cases hnone
    | enter => exact ⟨hm.stepRuns_fresh (hturn.fits.visit rfl).1, rfl⟩
  case listed =>
    have hmark : (w.change m e p (b.newAttempt raw x m.nextId m.clock)).mark = id := by
      funext q
      simp [Change.mark, hunmarked]
    rw [hg.ran, hid, hturn.fits.positionsOf hm, hmark, List.map_id]
    cases w <;> rfl

theorem resumed {step : Step} {br : Branch} {t : StepTemplate}
    (hway : w = .enter step .stepInProgress true) (hbranch : step.branch = br.name)
    (hstep : step.Built ctx.registry t br.name) :
    Resumed ctx.registry m e.run.record.id p br t (e.runStep ctx raw m).1.2
      (e.runStep ctx raw m).2 (w.step m e b (b.newAttempt raw x m.nextId m.clock))
      (w.position m e p) := by
  rw [hg.ran]
  exact h.resumed (r.version + 1) hm hg.turn hway hbranch hstep

end Engine.Went

/-! ## The engines of a reachable world -/

namespace World
variable {registry : Registry} {w : World} {id : Int} {r : RunRecord} {slot : Nat} {e : Engine}

/-- An engine in use that can run the current step of a run: it was prepared and not overtaken. -/
structure Ready (w : World) (id : Int) (slot : Nat) (e : Engine) : Prop where
  used : w.engine? slot = some e
  run : e.run.record.id = id
  placed : ¬ e.Waiting
  current : ¬ e.Stale w.store

/-- The property holds of every engine that can run the current step of the run: of a fresh one,
and of each that is ready for it. They are seated at the latest position of the run in its flow. -/
structure AtCurrentStep (registry : Registry) (w : World) (id : Int) (r : RunRecord)
    (P : Engine → Memory → Prop) : Prop where
  fresh : ∃ e m, (Engine.fresh (w.context registry) id).run w.store = (.ok e, m) ∧
    e.run.record.id = id ∧ w.catalog.resolve r.configTag = .ok e.config ∧
    (∃ p b, e.Seated registry m p b) ∧ P e m
  ready : ∀ slot e, w.Ready id slot e → w.catalog.resolve r.configTag = .ok e.config ∧
    (∃ p b, e.Seated registry w.store p b) ∧ P e w.store

theorem Sound.ready_seated (h : w.Sound registry) (he : w.Ready id slot e) :
    ∃ p b, e.Seated registry w.store p b := by
  obtain ⟨-, hwaiting | hseated⟩ := (h.engines he.used).current he.current
  · exact absurd hwaiting he.placed
  · exact hseated

theorem Sound.ready_at {b : BoundStep} (h : w.Sound registry) (he : w.Ready id slot e)
    (hb : e.stepEngine.current? = some b) :
    e.config.tree.WellFormed registry ∧ ∃ p, e.Seated registry w.store p b := by
  obtain ⟨p, b', hseated⟩ := h.ready_seated he
  obtain rfl : b' = b := Option.some.inj (hseated.holds.current.symm.trans hb)
  exact ⟨h.flows (h.engines he.used).flow, p, hseated⟩

/-- An engine that has a position and the version of its run is ready. -/
theorem exists_ready {p : PositionRecord} (he : w.engine? slot = some e)
    (hid : e.run.record.id = id) (hp : e.position = some p)
    (hv : (w.store.runs.get? id).map (·.version) = some e.run.record.version) :
    ∃ r, w.store.runs.get? id = some r ∧ w.Ready id slot e := by
  obtain ⟨r, hr, hversion⟩ := Option.map_eq_some_iff.mp hv
  refine ⟨r, hr, he, hid, ?_, Engine.not_stale (hid ▸ hr) hversion⟩
  rintro ⟨-, hposition⟩
  rw [hposition] at hp
  cases hp

/-- What holds of seated engines holds of every engine that can run the current step. -/
theorem Reachable.atCurrentStep {P : Engine → Memory → Prop} (h : Reachable registry w)
    (hr : w.store.runs.get? id = some r)
    (hP : ∀ {e m p b}, m.Sound → e.config.tree.WellFormed registry → e.Seated registry m p b →
      P e m) : w.AtCurrentStep registry id r P := by
  have hsound := h.sound
  obtain rfl : r.id = id := (hsound.store.runs hr).1
  constructor
  case fresh =>
    obtain ⟨config, hconfig, htracks⟩ := hsound.runs hr
    have hwell := hsound.flows hconfig
    obtain ⟨e, m, p, b, hfresh, hm, rfl, hsame, hseated, -⟩ :=
      Engine.fresh_seated (w.context registry) hsound.store hwell hconfig hr htracks
    exact ⟨e, m, hfresh, hsame, hconfig, ⟨p, b, hseated⟩, hP hm hwell hseated⟩
  case ready =>
    intro slot e he
    obtain ⟨p, b, hseated⟩ := hsound.ready_seated he
    have hflow := (hsound.engines he.used).flow
    have htag : e.run.record.configTag = r.configTag := by
      rw [hseated.held.record_eq (he.run ▸ hr)]
    exact ⟨htag ▸ hflow, ⟨p, b, hseated⟩, hP hsound.store (hsound.flows hflow) hseated⟩

end World
end CallFlow
