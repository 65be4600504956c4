import CallFlow.Proofs.Flow.Valid
import CallFlow.Proofs.Engine.Staging
import CallFlow.Proofs.Store.Change

/-! # What the moves of a call do

Each move of a call as an equation: from a unit of work that has recorded a change so far, to
the unit of work after the move. What a move reads of the store is what was committed, however
much was staged before it.
-/
namespace CallFlow

namespace Effect
variable {σ ε α β : Type} {x : Effect σ ε α} {f : α → Effect σ ε β} {s s' : σ}

theorem bind_of_ok {a : α} (h : x.run s = (.ok a, s')) : (x >>= f).run s = (f a).run s' := by
  rw [run_bind, h]

theorem bind_of_error {e : ε} (h : x.run s = (.error e, s')) :
    (x >>= f).run s = (.error e, s') := by
  rw [run_bind, h]

end Effect

def NewStepRun.toRecord (new : NewStepRun) (id : Int) (clock : String) : StepRunRecord where
  id := id
  run := new.run
  name := new.name
  branch := new.branch
  stepType := new.stepType
  snapshot := new.snapshot
  createdAt := clock

def NewAttempt.toRecord (new : NewAttempt) (id : Int) (clock : String) : AttemptRecord where
  id := id
  stepRun := new.stepRun
  input := new.input
  result := new.result
  failed := new.failed
  retryable := new.retryable
  createdAt := clock

def NewPosition.toRecord (new : NewPosition) (id : Int) (clock : String) : PositionRecord where
  id := id
  run := new.run
  stepRun := new.stepRun
  order := new.order
  branchedOnError := false
  createdAt := clock

namespace Memory

theorem insertStepRun_run (new : NewStepRun) (s : Snapshot) (m : Memory) :
    (Backend.insertStepRun (σ := Memory) new s).run m =
      if m.knowsRun s new.run then
        (.ok (new.toRecord m.nextId m.clock,
          s.stage (.insertStepRun (new.toRecord m.nextId m.clock))), m.allocate)
      else (.error (.runNotFound new.run), m) := rfl

theorem insertAttempt_run (new : NewAttempt) (s : Snapshot) (m : Memory) :
    (Backend.insertAttempt (σ := Memory) new s).run m =
      if m.knowsStepRun s new.stepRun then
        (.ok (new.toRecord m.nextId m.clock,
          s.stage (.insertAttempt (new.toRecord m.nextId m.clock))), m.allocate)
      else (.error (.stepRunNotFound new.stepRun), m) := rfl

end Memory

namespace Engine

def holding (e : Engine) (b : BoundStep) (progress : Progress) : Engine :=
  { e with stepEngine := .holding b progress }

def inState (e : Engine) (state : RunState) : Engine := { e with run := { e.run with state } }

def onBranch (e : Engine) (branch : String) : Engine := { e with run := e.run.onBranch branch }

def located (e : Engine) (p : PositionRecord) : Engine := { e with position := some p }

def newVisit (e : Engine) (step : Step) (id : Int) (clock : String) : StepRunRecord :=
  (step.newStepRun e.run.record.id).toRecord id clock

def nextOrder (e : Engine) : Int := (e.position.map (·.order)).getD 0 + 1

def newPosition (e : Engine) (stepRun id : Int) (clock : String) : PositionRecord :=
  (⟨e.run.record.id, stepRun, e.nextOrder⟩ : NewPosition).toRecord id clock

def visiting (e : Engine) (step : Step) (id : Int) (clock : String) : BoundStep :=
  ⟨step, ⟨e.newVisit step id clock, []⟩⟩

def entered (e : Engine) (step : Step) (id : Int) (clock : String) : Engine :=
  (e.holding (e.visiting step id clock) .ready).located (e.newPosition id (id + 1) clock)

def reentered (e : Engine) (b : BoundStep) (id : Int) (clock : String) : Engine :=
  (e.holding b .ready).located (e.newPosition b.stepRun.record.id id clock)

end Engine

def BoundStep.newAttempt (b : BoundStep) (raw : Option String) (x : StepBehavior.Execution)
    (id : Int) (clock : String) : AttemptRecord :=
  (StepEngine.newAttempt b.stepRun.record.id raw x).toRecord id clock

def Branch.following (b : Branch) (registry : Registry) (last : Option String) :
    Except EngineError Step :=
  match Work.indexAfter b last with
  | .error e => .error (.config e)
  | .ok i =>
    match b.steps[i]? with
    | none => .error (.unrecoverable b.name (last.getD "") .branchExhausted)
    | some t => (Step.ofTemplate t b.name registry).mapError .config

namespace Work

/-- A unit of work that has recorded a change so far. -/
def during (m : Memory) (n : Int) (x : Change) (e : Engine) : Work Memory :=
  ⟨{ m with nextId := n }, ⟨x.writes⟩, e⟩

abbrev entering (m : Memory) (n : Int) (a : Option AttemptRecord) (k : Option Int) (e : Engine)
    (step : Step) : Work Memory :=
  during m (n + 2) ⟨a, k, some (e.newVisit step n m.clock), some (e.newPosition n (n + 1) m.clock)⟩
    (e.entered step n m.clock)

abbrev reentering (m : Memory) (n : Int) (a : Option AttemptRecord) (k : Option Int) (e : Engine)
    (b : BoundStep) : Work Memory :=
  during m (n + 1) ⟨a, k, none, some (e.newPosition b.stepRun.record.id n m.clock)⟩
    (e.reentered b n m.clock)

variable {m : Memory} {n : Int} {x : Change} {e : Engine}
variable {a : Option AttemptRecord} {k : Option Int}

theorem during_sound (hm : m.Sound) (hn : m.nextId ≤ n) : (during m n x e).store.Sound :=
  Memory.SameTables.sound (m := m) ⟨rfl, rfl, rfl, rfl⟩ hn hm

theorem engine?_run (w : Work Memory) : engine?.run w = (.ok w.engine, w) := rfl

theorem currentStep_run {w : Work Memory} {b : BoundStep}
    (h : w.engine.stepEngine.current? = some b) : currentStep.run w = (.ok b, w) := by
  have hengine : (engine? (σ := Memory)).run w = (.ok w.engine, w) := rfl
  simp only [currentStep, Effect.run_bind, hengine, h]
  rfl

theorem configured_run_ok {α : Type} {y : Except ConfigError α} {v : α} {w : Work Memory}
    (h : y = .ok v) : (configured y).run w = (.ok v, w) := by
  subst h
  rfl

/-! ## Entering a step -/

theorem placeStep_run_bound (w : Work Memory) (step : Step) (stepRun : StepRun) :
    (placeStep step (some stepRun)).run w =
      (.ok ⟨step, stepRun⟩, { w with engine := w.engine.holding ⟨step, stepRun⟩ .ready }) := rfl

abbrev afterVisit (w : Work Memory) (step : Step) : Work Memory :=
  let b := w.engine.visiting step w.store.nextId w.store.clock
  ⟨w.store.allocate, w.snapshot.stage (.insertStepRun b.stepRun.record), w.engine.holding b .ready⟩

theorem placeStep_afterVisit (w : Work Memory) (step : Step)
    (hr : w.store.runs.contains w.engine.run.record.id = true) :
    (placeStep step none).run w =
      (.ok (w.engine.visiting step w.store.nextId w.store.clock), w.afterVisit step) := by
  have hknown :
      w.store.knowsRun w.snapshot (step.newStepRun w.engine.run.record.id).run = true := by
    simp only [Memory.knowsRun, Step.newStepRun, hr, Bool.or_true]
  simp only [placeStep, stage, StepEngine.place, Effect.run_bind, Memory.insertStepRun_run,
    if_pos hknown, engine?]
  rfl

theorem placeStep_run_new (step : Step) (hr : m.runs.contains e.run.record.id = true) :
    (placeStep step none).run (during m n ⟨a, k, none, none⟩ e) =
      (.ok (e.visiting step n m.clock),
        during m (n + 1) ⟨a, k, some (e.newVisit step n m.clock), none⟩
          (e.holding (e.visiting step n m.clock) .ready)) := by
  have hwrites (s : StepRunRecord) : (Snapshot.mk (Change.writes ⟨a, k, none, none⟩)).stage
      (.insertStepRun s) = ⟨Change.writes ⟨a, k, some s, none⟩⟩ := by
    simp [Snapshot.stage, Change.writes]
  simp only [during, ← hwrites]
  exact placeStep_afterVisit (during m n ⟨a, k, none, none⟩ e) step hr

abbrev afterPosition (w : Work Memory) (stepRun : Int) : Work Memory :=
  ⟨w.store.allocate,
    w.snapshot.stage
      (.insertPosition (w.engine.newPosition stepRun w.store.nextId w.store.clock)),
    w.engine⟩

theorem insertPosition_afterPosition (w : Work Memory) (stepRun : Int)
    (hs : w.store.knowsStepRun w.snapshot stepRun = true) :
    (stage (Backend.insertPosition (σ := Memory)
        ⟨w.engine.run.record.id, stepRun, w.engine.nextOrder⟩)).run w =
      if w.snapshot.hasOrder w.engine.run.record.id w.engine.nextOrder ||
          w.store.hasOrder w.engine.run.record.id w.engine.nextOrder then
        (.error (.concurrentModification w.engine.run.record.id), w)
      else (.ok (w.engine.newPosition stepRun w.store.nextId w.store.clock),
        w.afterPosition stepRun) := by
  have hinsert : (Backend.insertPosition (σ := Memory)
      ⟨w.engine.run.record.id, stepRun, w.engine.nextOrder⟩ w.snapshot).run w.store =
        w.store.insertPosition ⟨w.engine.run.record.id, stepRun, w.engine.nextOrder⟩
          w.snapshot := rfl
  simp only [stage, hinsert, Memory.insertPosition, hs, Bool.not_true, Bool.false_eq_true,
    if_false]
  cases Snapshot.hasOrder w.snapshot w.engine.run.record.id w.engine.nextOrder ||
    w.store.hasOrder w.engine.run.record.id w.engine.nextOrder <;> rfl

theorem insertPosition_run {v : Option StepRunRecord} (stepRun : Int)
    (hs : m.stepRuns.contains stepRun = true ∨ v.any (·.id = stepRun) = true)
    (ho : m.hasOrder e.run.record.id e.nextOrder = false) :
    (stage (Backend.insertPosition (σ := Memory) ⟨e.run.record.id, stepRun, e.nextOrder⟩)).run
        (during m n ⟨a, k, v, none⟩ e) =
      (.ok (e.newPosition stepRun n m.clock),
        during m (n + 1) ⟨a, k, v, some (e.newPosition stepRun n m.clock)⟩ e) := by
  let s : Snapshot := ⟨Change.writes ⟨a, k, v, none⟩⟩
  have hknows : Memory.knowsStepRun { m with nextId := n } s stepRun = true := by
    rcases hs with hs | hs
    · simp only [Memory.knowsStepRun, hs, Bool.or_true]
    · cases v with
      | none => simp at hs
      | some v =>
        have hv : v.id = stepRun := by simpa using hs
        simp [s, Memory.knowsStepRun, Snapshot.hasStepRun, Change.writes, hv]
  have hstaged : s.hasOrder e.run.record.id e.nextOrder = false := by
    cases a <;> cases k <;> cases v <;> simp [s, Snapshot.hasOrder, Change.writes]
  have horder : Memory.hasOrder { m with nextId := n } e.run.record.id e.nextOrder = false := ho
  have hwrites (p : PositionRecord) :
      s.stage (.insertPosition p) = ⟨Change.writes ⟨a, k, v, some p⟩⟩ := by
    simp [s, Snapshot.stage, Change.writes]
  have hrun := insertPosition_afterPosition (during m n ⟨a, k, v, none⟩ e) stepRun hknows
  rw [show (during m n ⟨a, k, v, none⟩ e).snapshot = s from rfl] at hrun
  simp only [during, hstaged, horder, Bool.or_self, Bool.false_eq_true, if_false] at hrun
  simp only [during, ← hwrites]
  exact hrun

theorem enterStep_run_new (step : Step) (hr : m.runs.contains e.run.record.id = true)
    (ho : m.hasOrder e.run.record.id e.nextOrder = false) :
    (enterStep step none).run (during m n ⟨a, k, none, none⟩ e) =
      (.ok (e.visiting step n m.clock), entering m n a k e step) := by
  have hplace := placeStep_run_new (n := n) (a := a) (k := k) step hr
  have hinsert := insertPosition_run n (n := n + 1) (a := a) (k := k)
    (v := some (e.newVisit step n m.clock))
    (e := e.holding (e.visiting step n m.clock) .ready) (.inr (by simp; rfl)) ho
  have htwo : n + 2 = n + 1 + 1 := by omega
  rw [entering, htwo]
  refine (Effect.bind_of_ok hplace).trans ?_
  refine (Effect.bind_of_ok (engine?_run _)).trans ?_
  refine (Effect.bind_of_ok hinsert).trans ?_
  rfl

theorem enterStep_run_bound (step : Step) {stepRun : StepRun}
    (hs : m.stepRuns.contains stepRun.record.id = true)
    (ho : m.hasOrder e.run.record.id e.nextOrder = false) :
    (enterStep step (some stepRun)).run (during m n ⟨a, k, none, none⟩ e) =
      (.ok ⟨step, stepRun⟩, reentering m n a k e ⟨step, stepRun⟩) := by
  have hinsert := insertPosition_run _ (n := n) (a := a) (k := k) (v := none)
    (e := e.holding ⟨step, stepRun⟩ .ready) (.inl hs) ho
  refine (Effect.bind_of_ok (placeStep_run_bound _ _ _)).trans ?_
  refine (Effect.bind_of_ok (engine?_run _)).trans ?_
  refine (Effect.bind_of_ok hinsert).trans ?_
  rfl

/-! ## Executing a step -/

abbrev afterAttempt (w : Work Memory) (raw : Option String) (b : BoundStep)
    (x : StepBehavior.Execution) : Work Memory :=
  let a := b.newAttempt raw x w.store.nextId w.store.clock
  ⟨w.store.allocate, w.snapshot.stage (.insertAttempt a),
    { w.engine with
      stepEngine := .holding { b with stepRun := b.stepRun.push a }
        (StepEngine.conclude x.outcome).1
      run := w.engine.run.withSession x.session }⟩

theorem attempt_afterAttempt (ctx : Context) (raw : Option String) (w : Work Memory) {b : BoundStep}
    (he : w.engine.stepEngine = .holding b .ready)
    (hs : w.store.knowsStepRun w.snapshot b.stepRun.record.id = true) :
    let x := b.step.behavior.execute ctx.services raw w.engine.run.record.session
    (attempt ctx raw).run w = (.ok x.outcome, w.afterAttempt raw b x) := by
  intro x
  let a := b.newAttempt raw x w.store.nextId w.store.clock
  have hran : w.engine.stepEngine.run (σ := Memory) ctx.services raw w.engine.run.record.session
      w.snapshot w.store =
        (⟨(StepEngine.conclude x.outcome).2,
          .holding { b with stepRun := b.stepRun.push a } (StepEngine.conclude x.outcome).1,
          x.session, w.snapshot.stage (.insertAttempt a)⟩, w.store.allocate) := by
    rw [he]
    simp only [StepEngine.run, Memory.insertAttempt_run, StepEngine.newAttempt, if_pos hs]
    rfl
  simp only [attempt, hran, afterAttempt]
  cases x.outcome <;> rfl

theorem attempt_run (ctx : Context) (raw : Option String) {b : BoundStep}
    (he : e.stepEngine = .holding b .ready)
    (hs : m.stepRuns.contains b.stepRun.record.id = true) :
    let x := b.step.behavior.execute ctx.services raw e.run.record.session
    let a := b.newAttempt raw x n m.clock
    (attempt ctx raw).run (during m n .nothing e) =
      (.ok x.outcome,
        during m (n + 1) ⟨some a, none, none, none⟩
          { e with
            stepEngine := .holding { b with stepRun := b.stepRun.push a }
              (StepEngine.conclude x.outcome).1
            run := e.run.withSession x.session }) := by
  refine attempt_afterAttempt ctx raw (during m n .nothing e) he ?_
  simp only [during, Memory.knowsStepRun, hs, Bool.or_true]

/-! ## Finding the next step -/

theorem lastVisited_run {w : Work Memory} {branch : String} (hm : w.store.Sound) :
    (lastVisited branch).run w =
      (.ok (lastOn branch (w.store.historyOf w.engine.run.record.id)), w) := by
  have hhistory : (query (Backend.history (σ := Memory) w.engine.run.record.id)).run w =
      (.ok (w.store.historyOf w.engine.run.record.id), w) := by
    simp only [query, Memory.history_run, hm.history_eq]
  refine (Effect.bind_of_ok (engine?_run _)).trans ?_
  refine (Effect.bind_of_ok hhistory).trans ?_
  rfl

/-- The next step on a branch is read off the committed history. -/
theorem nextOn_run {w : Work Memory} (ctx : Context) {b : Branch} (justSwitched : Bool)
    (hm : w.store.Sound) (hb : w.engine.config.tree.branch b.name = .ok b) :
    (nextOn ctx b.name justSwitched).run w =
      (b.following ctx.registry
        (if justSwitched && b.resetOnSwitch then none
          else lastOn b.name (w.store.historyOf w.engine.run.record.id)), w) := by
  have hrest (last : Option String) : (do
      match b.steps[← Work.configured (indexAfter b last)]? with
      | none => throw (.unrecoverable b.name (last.getD "") .branchExhausted)
      | some t => Work.configured (Step.ofTemplate t b.name ctx.registry) :
        WorkM Memory Step).run w = (b.following ctx.registry last, w) := by
    unfold Branch.following
    cases hi : indexAfter b last with
    | error e => rfl
    | ok i =>
      refine (Effect.bind_of_ok (configured_run_ok rfl)).trans ?_
      dsimp only
      cases b.steps[i]? <;> rfl
  refine (Effect.bind_of_ok (engine?_run _)).trans ?_
  refine (Effect.bind_of_ok (configured_run_ok hb)).trans ?_
  dsimp only
  split
  · exact hrest none
  · exact (Effect.bind_of_ok (lastVisited_run hm)).trans (hrest _)

/-! ## Going on -/

section Going
variable {ctx : Context}

theorem leave_run {w : Work Memory} (exit : ExitPath)
    (h : Trigger.finish.fire? w.engine.run.state = some .finished) :
    (leave exit).run w = (.ok (.exit exit), { w with engine := w.engine.inState .finished }) :=
  Effect.bind_of_ok (fire_run h)

theorem advance_run (step : Step)
    (h : Trigger.advanceStep.fire? e.run.state = some .stepInProgress)
    (hr : m.runs.contains e.run.record.id = true)
    (ho : m.hasOrder e.run.record.id e.nextOrder = false) :
    (advance step).run (during m n ⟨a, k, none, none⟩ e) =
      (.ok ((e.inState .stepInProgress).visiting step n m.clock),
        entering m n a k (e.inState .stepInProgress) step) :=
  (Effect.bind_of_ok (fire_run h)).trans
    (enterStep_run_new step (e := e.inState .stepInProgress) hr ho)

variable {b : BoundStep} {t : StepTemplate} (hb : e.stepEngine.current? = some b)
  (ht : e.config.tree.step b.step.branch b.step.name = .ok t)
include hb ht

theorem proceed_run_exit {exit : ExitTemplate} {path : ExitPath} (hx : t.exitPath = some exit)
    (hp : ctx.registry.BuildsExit exit path)
    (hf : Trigger.finish.fire? e.run.state = some .finished) :
    (proceed ctx).run (during m n x e) =
      (.ok (.exit path), during m n x (e.inState .finished)) := by
  refine (Effect.bind_of_ok (currentStep_run hb)).trans ?_
  refine (Effect.bind_of_ok (engine?_run _)).trans ?_
  refine (Effect.bind_of_ok (configured_run_ok ht)).trans ?_
  simp only [hx]
  refine (Effect.bind_of_ok (configured_run_ok (Registry.buildExitTemplate_eq_ok.mpr hp))).trans ?_
  exact leave_run path hf

variable {br : Branch} (hm : m.Sound) (hn : m.nextId ≤ n) (hx : t.exitPath = none)
  (hon : e.run.record.branch = b.step.branch) (hbr : br.name = b.step.branch)
  (hfound : e.config.tree.branch br.name = .ok br)
include hm hn hx hon hbr hfound

theorem proceed_run_next {next : Step}
    (hf : br.following ctx.registry (lastOn br.name (m.historyOf e.run.record.id)) = .ok next)
    (hs : Trigger.advanceStep.fire? e.run.state = some .stepInProgress)
    (hr : m.runs.contains e.run.record.id = true)
    (ho : m.hasOrder e.run.record.id e.nextOrder = false) :
    (proceed ctx).run (during m n ⟨a, k, none, none⟩ e) =
      (.ok (.step ((e.inState .stepInProgress).visiting next n m.clock)),
        entering m n a k (e.inState .stepInProgress) next) := by
  let x₀ : Change := ⟨a, k, none, none⟩
  have hnext := nextOn_run ctx false (during_sound (x := x₀) hm hn) hfound
  refine (Effect.bind_of_ok (currentStep_run hb)).trans ?_
  refine (Effect.bind_of_ok (engine?_run _)).trans ?_
  refine (Effect.bind_of_ok (configured_run_ok ht)).trans ?_
  have hsame : decide (e.run.record.branch ≠ b.step.branch) = false := by simp [hon]
  have hnext : (nextOn ctx e.run.record.branch (e.run.record.branch ≠ b.step.branch)).run
      (during m n x₀ e) = (.ok next, during m n x₀ e) := by
    rw [hsame, hon, ← hbr, hnext, ← hf]
    rfl
  simp only [hx]
  refine (Effect.bind_of_ok hnext).trans ?_
  exact Effect.bind_of_ok (advance_run next hs hr ho)

theorem proceed_run_end {failure : EngineError}
    (hf : br.following ctx.registry (lastOn br.name (m.historyOf e.run.record.id)) =
      .error failure) :
    (proceed ctx).run (during m n x e) = (.error failure, during m n x e) := by
  have hnext := nextOn_run ctx false (during_sound (x := x) hm hn) hfound
  refine (Effect.bind_of_ok (currentStep_run hb)).trans ?_
  refine (Effect.bind_of_ok (engine?_run _)).trans ?_
  refine (Effect.bind_of_ok (configured_run_ok ht)).trans ?_
  have hsame : decide (e.run.record.branch ≠ b.step.branch) = false := by simp [hon]
  have hnext : (nextOn ctx e.run.record.branch (e.run.record.branch ≠ b.step.branch)).run
      (during m n x e) = (.error failure, during m n x e) := by
    rw [hsame, hon, ← hbr, hnext, ← hf]
    rfl
  simp only [hx]
  exact Effect.bind_of_error hnext

end Going

/-! ## Recovering -/

section Switching
variable {ctx : Context} {step : Step} {reason : StopReason}

theorem switchOrStop_run_none {w : Work Memory} (h : step.switchTarget = none) :
    (switchOrStop ctx step reason).run w =
      (.error (.unrecoverable step.branch step.name reason), w) := by
  simp only [switchOrStop, h]
  rfl

def lastBefore (step : Step) (b : Branch) (history : List HistoryEntry) : Option String :=
  if b.name ≠ step.branch && b.resetOnSwitch then none else lastOn b.name history

variable {b : Branch} (hm : m.Sound) (hn : m.nextId ≤ n) (ht : step.switchTarget = some b.name)
  (hb : e.config.tree.branch b.name = .ok b)
include hm hn ht hb

/-- When the error branch has no step left, the run is given up and nothing has changed. -/
theorem switchOrStop_run_stop {branch name : String} {exhausted : StopReason}
    (hf : b.following ctx.registry (lastBefore step b (m.historyOf e.run.record.id)) =
      .error (.unrecoverable branch name exhausted)) :
    (switchOrStop ctx step reason).run (during m n x e) =
      (.error (.unrecoverable step.branch step.name
        (.errorBranchExhausted reason b.name exhausted)), during m n x e) := by
  have hnext := nextOn_run ctx (b.name ≠ step.branch) (during_sound (x := x) hm hn) hb
  have hfound : (Effect.outcome (nextOn ctx b.name (b.name ≠ step.branch)) :
      WorkM Memory (Except EngineError Step)).run (during m n x e) =
        (.ok (.error (.unrecoverable branch name exhausted)), during m n x e) := by
    rw [Effect.run_outcome, hnext, ← hf]
    rfl
  simp only [switchOrStop, ht]
  exact Effect.bind_of_ok hfound

theorem switchOrStop_run_switch {next : Step} {p : PositionRecord}
    (hf : b.following ctx.registry (lastBefore step b (m.historyOf e.run.record.id)) = .ok next)
    (hp : e.position = some p) (hknown : m.positions.contains p.id = true)
    (hr : m.runs.contains e.run.record.id = true) (hstate : e.run.state = .error)
    (ho : m.hasOrder e.run.record.id e.nextOrder = false) :
    (switchOrStop ctx step reason).run (during m n ⟨a, none, none, none⟩ e) =
      (.ok ⟨.success none,
          .step (((e.inState .stepInProgress).onBranch b.name).visiting next n m.clock)⟩,
        entering m n a (some p.id) ((e.inState .stepInProgress).onBranch b.name) next) := by
  obtain ⟨config, run, stepEngine, position⟩ := e
  obtain rfl : position = some p := hp
  let e : Engine := ⟨config, run, stepEngine, some p⟩
  let x₀ : Change := ⟨a, none, none, none⟩
  have hnext := nextOn_run ctx (b.name ≠ step.branch) (during_sound (x := x₀) hm hn) hb
  have hfound : (Effect.outcome (nextOn ctx b.name (b.name ≠ step.branch)) :
      WorkM Memory (Except EngineError Step)).run (during m n x₀ e) =
        (.ok (.ok next), during m n x₀ e) := by
    rw [Effect.run_outcome, hnext, ← hf]
    rfl
  have hwrites : (Snapshot.mk (Change.writes x₀)).stage (.markBranched p.id) =
      ⟨Change.writes ⟨a, some p.id, none, none⟩⟩ := by
    simp [x₀, Snapshot.stage, Change.writes]
  have hmark : (stage fun s => do return ((), ← Backend.markBranched (σ := Memory) p.id s)).run
      (during m n x₀ e) = (.ok (), during m n ⟨a, some p.id, none, none⟩ e) := by
    have hknows : Memory.knowsPosition { m with nextId := n } ⟨Change.writes x₀⟩ p.id = true := by
      simp only [Memory.knowsPosition, hknown, Bool.or_true]
    simp only [stage, during, markBranched_run, if_pos hknows, hwrites]
  let left : PositionRecord := { p with branchedOnError := true }
  let e₁ : Engine := ((e.located left).onBranch b.name)
  have hset : (setEngine e₁).run (during m n ⟨a, some p.id, none, none⟩ e) =
      (.ok (), during m n ⟨a, some p.id, none, none⟩ e₁) := rfl
  have hfire : (fire .unregisterError).run (during m n ⟨a, some p.id, none, none⟩ e₁) =
      (.ok (), during m n ⟨a, some p.id, none, none⟩ (e₁.inState .stepInProgress)) :=
    fire_run (by rw [show (during m n _ e₁).engine.run.state = .error from hstate]; rfl)
  have hadvance := advance_run next (n := n) (a := a) (k := some p.id)
    (e := e₁.inState .stepInProgress) rfl hr ho
  simp only [switchOrStop, ht]
  refine (Effect.bind_of_ok hfound).trans ?_
  refine (Effect.bind_of_ok (engine?_run _)).trans ?_
  refine (Effect.bind_of_ok hmark).trans ?_
  refine (Effect.bind_of_ok (engine?_run _)).trans ?_
  refine (Effect.bind_of_ok hset).trans ?_
  refine (Effect.bind_of_ok hfire).trans ?_
  refine (Effect.bind_of_ok hadvance).trans ?_
  rfl

end Switching

section Retrying
variable {ctx : Context} {step : Step} {error : StepError} {w : Work Memory}

theorem otherTarget_run_none {b : Branch} {name : String}
    (hb : w.engine.config.tree.branch step.branch = .ok b) (ht : b.step? name = none) :
    (otherTarget ctx step name).run w = (.ok none, w) := by
  refine (Effect.bind_of_ok (engine?_run _)).trans ?_
  refine (Effect.bind_of_ok (configured_run_ok hb)).trans ?_
  simp only [ht]
  rfl

theorem found_run (target : Step) (run : Int) (branch name : String) (w : Work Memory) :
    (do
      match ← query (Backend.findStepRun (σ := Memory) run branch name) with
      | none => return some ⟨target, none⟩
      | some record =>
        let attempts ← query (Backend.attempts (σ := Memory) record.id)
        return some ⟨target, some ⟨record, attempts⟩⟩ : WorkM Memory (Option RetryTarget)).run w =
      (.ok (some ⟨target, (w.store.findStepRun run branch name).map
        fun r => ⟨r, w.store.attemptsOf r.id⟩⟩), w) := by
  have hfind : (query (Backend.findStepRun (σ := Memory) run branch name)).run w =
      (.ok (w.store.findStepRun run branch name), w) := rfl
  refine (Effect.bind_of_ok hfind).trans ?_
  cases w.store.findStepRun run branch name <;> rfl

theorem otherTarget_run_some {b : Branch} {name : String} {t : StepTemplate} {target : Step}
    (hb : w.engine.config.tree.branch step.branch = .ok b) (ht : b.step? name = some t)
    (hs : target.Built ctx.registry t step.branch) :
    (otherTarget ctx step name).run w =
      (.ok (some ⟨target, (w.store.findStepRun w.engine.run.record.id step.branch name).map
        fun r => ⟨r, w.store.attemptsOf r.id⟩⟩), w) := by
  refine (Effect.bind_of_ok (engine?_run _)).trans ?_
  refine (Effect.bind_of_ok (configured_run_ok hb)).trans ?_
  simp only [ht]
  refine (Effect.bind_of_ok (configured_run_ok (Step.ofTemplate_eq_ok.mpr hs))).trans ?_
  exact found_run _ _ _ _ w

theorem retry_run_exhausted {target : RetryTarget} {retryingSelf : Bool}
    (h : priorAttempts target retryingSelf ≥ ctx.budget target.step) :
    (retry ctx step error target retryingSelf : WorkM Memory Outcome) =
      switchOrStop ctx step (.budgetExhausted (ctx.budget target.step) error.message) := by
  unfold retry
  exact if_pos h

def retried (step : Step) : RunState :=
  if step.isInput then .requestingUserInput else .stepInProgress

theorem fire_run_retry {target : Step} (h : w.engine.run.state = .error) :
    (fire (if target.isInput then .retryInputStep else .retryStep)).run w =
      (.ok (), { w with engine := w.engine.inState (retried target) }) := by
  refine fire_run ?_
  rw [h]
  unfold retried
  cases target.isInput <;> rfl

theorem retry_run_self {stepRun : StepRun} (hstate : w.engine.run.state = .error)
    (hbudget : priorAttempts ⟨step, some stepRun⟩ true < ctx.budget step) :
    (retry ctx step error ⟨step, some stepRun⟩ true).run w =
      (.ok ⟨.error (retryMessage ctx step error) true error.resetStep, .step ⟨step, stepRun⟩⟩,
        { w with engine := (w.engine.inState (retried step)).holding ⟨step, stepRun⟩ .ready }) := by
  unfold retry
  simp only [ge_iff_le, Nat.not_le_of_lt hbudget, if_false, if_true]
  refine (Effect.bind_of_ok (fire_run_retry hstate)).trans ?_
  refine (Effect.bind_of_ok (placeStep_run_bound _ _ _)).trans ?_
  rfl

variable {target : Step} (hstate : e.run.state = .error)
  (ho : m.hasOrder e.run.record.id e.nextOrder = false)
include hstate ho

theorem retry_run_bound {stepRun : StepRun} (hs : m.stepRuns.contains stepRun.record.id = true)
    (hbudget : priorAttempts ⟨target, some stepRun⟩ false < ctx.budget target) :
    (retry ctx step error ⟨target, some stepRun⟩ false).run (during m n ⟨a, k, none, none⟩ e) =
      (.ok ⟨.error (retryMessage ctx step error) true error.resetStep, .step ⟨target, stepRun⟩⟩,
        reentering m n a k (e.inState (retried target)) ⟨target, stepRun⟩) := by
  unfold retry
  simp only [ge_iff_le, Nat.not_le_of_lt hbudget, if_false, Bool.false_eq_true]
  refine (Effect.bind_of_ok (fire_run_retry hstate)).trans ?_
  have henter := enterStep_run_bound target (n := n) (a := a) (k := k)
    (e := e.inState (retried target)) hs ho
  refine (Effect.bind_of_ok henter).trans ?_
  rfl

theorem retry_run_new (hr : m.runs.contains e.run.record.id = true)
    (hbudget : priorAttempts ⟨target, none⟩ false < ctx.budget target) :
    (retry ctx step error ⟨target, none⟩ false).run (during m n ⟨a, k, none, none⟩ e) =
      (.ok ⟨.error (retryMessage ctx step error) true error.resetStep,
          .step ((e.inState (retried target)).visiting target n m.clock)⟩,
        entering m n a k (e.inState (retried target)) target) := by
  unfold retry
  simp only [ge_iff_le, Nat.not_le_of_lt hbudget, if_false, Bool.false_eq_true]
  refine (Effect.bind_of_ok (fire_run_retry hstate)).trans ?_
  have henter := enterStep_run_new target (n := n) (a := a) (k := k)
    (e := e.inState (retried target)) hr ho
  refine (Effect.bind_of_ok henter).trans ?_
  rfl

end Retrying
end Work
end CallFlow
