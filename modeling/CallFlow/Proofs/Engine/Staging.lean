import CallFlow.Engine.Call
import CallFlow.Proofs.Store.History

/-! # Work that only stages

Until it is settled, a unit of work leaves the four tables alone, keeps the run and the version
that its engine was loaded with, and stages no write that changes the version of a run. So the
update of a run that was changed in the meantime is always refused, whatever came before it.
-/
namespace CallFlow
open Work

/-- A success or an unrecoverable failure, which a unit of work commits. -/
def Committed {α : Type} : Except EngineError α → Prop
  | .ok _ | .error (.unrecoverable ..) => True
  | .error _ => False

instance {α : Type} (answer : Except EngineError α) : Decidable (Committed answer) :=
  match answer with
  | .ok _ | .error (.unrecoverable ..) => .isTrue trivial
  | .error (.initialization _) | .error (.invalidState ..) | .error (.stepNotReady _)
  | .error (.notRunnable _) | .error (.step _) | .error (.concurrentModification _)
  | .error (.config _) | .error (.storage _) => .isFalse id

namespace Memory

structure Grows (m m' : Memory) : Prop where
  tables : SameTables m m'
  clock : m'.clock = m.clock
  nextId : m.nextId ≤ m'.nextId

theorem Grows.refl (m : Memory) : Grows m m := ⟨.refl m, rfl, Int.le_refl _⟩

theorem Grows.trans {m₁ m₂ m₃ : Memory} (h : Grows m₁ m₂) (h' : Grows m₂ m₃) : Grows m₁ m₃ :=
  ⟨h.tables.trans h'.tables, h'.clock.trans h.clock, Int.le_trans h.nextId h'.nextId⟩

theorem grows_allocate (m : Memory) : Grows m m.allocate := by
  refine ⟨⟨rfl, rfl, rfl, rfl⟩, rfl, ?_⟩
  simp only [allocate]
  omega

end Memory

def Snapshot.Extends (s s' : Snapshot) : Prop :=
  ∃ ws, s'.writes = s.writes ++ ws ∧ ∀ w ∈ ws, ∀ id, w.version? id = none

namespace Snapshot

theorem Extends.refl (s : Snapshot) : s.Extends s := ⟨[], by simp, by simp⟩

theorem Extends.trans {s₁ s₂ s₃ : Snapshot} (h : s₁.Extends s₂) (h' : s₂.Extends s₃) :
    s₁.Extends s₃ := by
  obtain ⟨ws, heq, hws⟩ := h
  obtain ⟨vs, heq', hvs⟩ := h'
  refine ⟨ws ++ vs, by rw [heq', heq, List.append_assoc], ?_⟩
  intro w hw
  rcases List.mem_append.mp hw with hw | hw
  · exact hws w hw
  · exact hvs w hw

theorem extends_stage (s : Snapshot) {w : Write} (h : ∀ id, w.version? id = none) :
    s.Extends (s.stage w) :=
  ⟨[w], rfl, by simpa using h⟩

theorem Extends.version? {s : Snapshot} (h : empty.Extends s) (id : Int) : s.version? id = none := by
  obtain ⟨ws, heq, hws⟩ := h
  simp only [Snapshot.version?, heq, empty, List.nil_append, List.findSome?_eq_none_iff,
    List.mem_reverse]
  exact fun w hw => hws w hw id

end Snapshot

structure Engine.SameRun (e e' : Engine) : Prop where
  config : e'.config = e.config
  id : e'.run.record.id = e.run.record.id
  version : e'.run.record.version = e.run.record.version
  configTag : e'.run.record.configTag = e.run.record.configTag

namespace Engine.SameRun

theorem refl (e : Engine) : SameRun e e := ⟨rfl, rfl, rfl, rfl⟩

theorem trans {e₁ e₂ e₃ : Engine} (h : SameRun e₁ e₂) (h' : SameRun e₂ e₃) : SameRun e₁ e₃ :=
  ⟨h'.config.trans h.config, h'.id.trans h.id, h'.version.trans h.version,
    h'.configTag.trans h.configTag⟩

end Engine.SameRun

def Engine.Stale (m : Memory) (e : Engine) : Prop :=
  ∀ c, m.runs.get? e.run.record.id = some c → c.version ≠ e.run.record.version

theorem Engine.stale_of_lt {m : Memory} {e : Engine} {r : RunRecord}
    (hr : m.runs.get? e.run.record.id = some r) (hv : e.run.record.version < r.version) :
    e.Stale m := by
  intro c hc
  obtain rfl : r = c := Option.some.inj (hr.symm.trans hc)
  omega

theorem Engine.SameRun.stale_iff {m : Memory} {e e' : Engine} (h : e.SameRun e') :
    e'.Stale m ↔ e.Stale m := by
  simp only [Stale, h.id, h.version]

def Engine.stopped (e : Engine) : Engine :=
  if e.run.state ∈ Trigger.registerError.sources then
    { e with run := { e.run with state := .error } }
  else e

namespace Work
variable {α β : Type}

structure Extends (w w' : Work Memory) : Prop where
  store : w.store.Grows w'.store
  snapshot : w.snapshot.Extends w'.snapshot
  engine : w.engine.SameRun w'.engine

theorem Extends.refl (w : Work Memory) : w.Extends w := ⟨.refl _, .refl _, .refl _⟩

theorem Extends.trans {w₁ w₂ w₃ : Work Memory} (h : w₁.Extends w₂) (h' : w₂.Extends w₃) :
    w₁.Extends w₃ :=
  ⟨h.store.trans h'.store, h.snapshot.trans h'.snapshot, h.engine.trans h'.engine⟩

theorem extends_setEngine {w : Work Memory} {e : Engine} (h : w.engine.SameRun e) :
    w.Extends ((setEngine e).run w).2 :=
  ⟨.refl _, .refl _, h⟩

theorem extends_bind {x : WorkM Memory α} {f : α → WorkM Memory β} {w : Work Memory}
    (hx : w.Extends (x.run w).2)
    (hf : ∀ a w', x.run w = (.ok a, w') → w'.Extends ((f a).run w').2) :
    w.Extends ((x >>= f).run w).2 := by
  rw [Effect.run_bind]
  rcases hrun : x.run w with ⟨e | a, w'⟩ <;> rw [hrun] at hx
  · exact hx
  · exact hx.trans (hf a w' hrun)

theorem stage_engine {x : Snapshot → StoreM Memory (α × Snapshot)} {w w' : Work Memory}
    {r : Except EngineError α} (h : (stage x).run w = (r, w')) : w'.engine = w.engine := by
  simp only [stage] at h
  split at h <;> cases h <;> rfl

def StagesOnly (x : WorkM Memory α) : Prop := ∀ w : Work Memory, w.Extends (x.run w).2

namespace StagesOnly

theorem pure (a : α) : StagesOnly (Pure.pure a) := fun w => .refl w

theorem throw (e : EngineError) : StagesOnly (MonadExcept.throw e : WorkM Memory α) :=
  fun w => .refl w

theorem bind {x : WorkM Memory α} {f : α → WorkM Memory β} (hx : StagesOnly x)
    (hf : ∀ a, StagesOnly (f a)) : StagesOnly (x >>= f) :=
  fun w => extends_bind (hx w) fun a w' _ => hf a w'

theorem outcome {x : WorkM Memory α} (hx : StagesOnly x) :
    StagesOnly (Effect.outcome x : WorkM Memory (Except EngineError α)) :=
  fun w => hx w

theorem engine? : StagesOnly engine? := fun w => .refl w

theorem configured (x : Except ConfigError α) : StagesOnly (configured x) := fun w => .refl w

theorem query {x : StoreM Memory α} (hx : ∀ m : Memory, m.Grows (x.run m).2) : StagesOnly (query x) := by
  intro w
  have hw := hx w.store
  simp only [Work.query]
  split <;> rename_i hrun <;> rw [hrun] at hw <;> exact ⟨hw, .refl _, .refl _⟩

theorem stage {x : Snapshot → StoreM Memory (α × Snapshot)}
    (hm : ∀ s (m : Memory), m.Grows ((x s).run m).2)
    (hs : ∀ s m a s' m', (x s).run m = (.ok (a, s'), m') → s.Extends s') :
    StagesOnly (stage x) := by
  intro w
  have hw := hm w.snapshot w.store
  simp only [Work.stage]
  split <;> rename_i hrun <;> rw [hrun] at hw
  · exact ⟨hw, hs _ _ _ _ _ hrun, .refl _⟩
  · exact ⟨hw, .refl _, .refl _⟩

theorem fire (t : Trigger) : StagesOnly (fire t) := by
  intro w
  refine extends_bind (engine? w) fun e w₁ h₁ => ?_
  cases h₁
  refine extends_bind (.refl _) fun run w₂ h₂ => extends_setEngine ?_
  simp only [Run.fire] at h₂
  split at h₂ <;> cases h₂
  exact ⟨rfl, rfl, rfl, rfl⟩

theorem currentStep : StagesOnly currentStep := by
  refine bind engine? fun e => ?_
  cases e.stepEngine.current? with
  | none => exact throw _
  | some step => exact pure _

end StagesOnly

/-! ## Triggers -/

section Triggers
variable {σ : Type} [Backend σ]

theorem fire_run {t : Trigger} {w : Work σ} {state : RunState}
    (h : t.fire? w.engine.run.state = some state) :
    (fire t).run w =
      (.ok (), { w with engine := { w.engine with run := { w.engine.run with state } } }) := by
  have hengine : (engine? (σ := σ)).run w = (.ok w.engine, w) := rfl
  simp only [fire, Effect.run_bind, hengine, Run.fire, h]
  rfl

theorem fire_run_error {t : Trigger} {w : Work σ} (h : t.fire? w.engine.run.state = none) :
    (fire t).run w = (.error (.invalidState w.engine.run.state t), w) := by
  have hengine : (engine? (σ := σ)).run w = (.ok w.engine, w) := rfl
  simp only [fire, Effect.run_bind, hengine, Run.fire, h]
  rfl

theorem registerStop_run (w : Work σ) :
    registerStop.run w = (.ok (), { w with engine := w.engine.stopped }) := by
  have hengine : (engine? (σ := σ)).run w = (.ok w.engine, w) := rfl
  simp only [registerStop, Effect.run_bind, hengine, Engine.stopped]
  split
  · rename_i h
    exact fire_run (by simp only [Trigger.fire?, if_pos h]; rfl)
  · rfl

end Triggers

/-! ## The moves of a call -/

section Memory
variable (m : Memory) (s : Snapshot)

theorem grows_insertStepRun (new : NewStepRun) : m.Grows (m.insertStepRun new s).2 := by
  simp only [Memory.insertStepRun]
  split
  · exact m.grows_allocate
  · exact .refl m

theorem grows_insertAttempt (new : NewAttempt) : m.Grows (m.insertAttempt new s).2 := by
  simp only [Memory.insertAttempt]
  split
  · exact m.grows_allocate
  · exact .refl m

theorem grows_insertPosition (new : NewPosition) : m.Grows (m.insertPosition new s).2 := by
  simp only [Memory.insertPosition]
  split
  · exact .refl m
  · split
    · exact .refl m
    · exact m.grows_allocate

end Memory

theorem markBranched_run (id : Int) (s : Snapshot) (m : Memory) :
    (do return ((), ← Backend.markBranched (σ := Memory) id s) : StoreM Memory _).run m =
      if m.knowsPosition s id then (.ok ((), s.stage (.markBranched id)), m)
      else (.error (.positionNotFound id), m) := by
  have hmark : (Backend.markBranched (σ := Memory) id s).run m = m.markBranched id s := rfl
  simp only [Effect.run_bind, hmark, Memory.markBranched]
  cases m.knowsPosition s id <;> rfl

namespace StagesOnly

theorem insertPosition (new : NewPosition) :
    StagesOnly (Work.stage (Backend.insertPosition new)) := by
  refine stage (fun s m => grows_insertPosition m s new) fun s m p s' m' h => ?_
  simp only [Backend.insertPosition, Memory.insertPosition] at h
  split at h
  · cases h
  · split at h <;> cases h
    exact s.extends_stage fun _ => rfl

theorem markBranched (id : Int) : StagesOnly
    (Work.stage fun s => do return ((), ← Backend.markBranched (σ := Memory) id s)) := by
  refine stage (fun s m => ?_) fun s m a s' m' h => ?_
  · rw [markBranched_run]
    split <;> exact .refl m
  · rw [markBranched_run] at h
    split at h <;> cases h
    exact s.extends_stage fun _ => rfl

theorem place (run : Int) (step : Step) (existing : Option StepRun) :
    StagesOnly (Work.stage (StepEngine.place (σ := Memory) run step existing)) := by
  cases existing with
  | some stepRun => exact stage (fun _ m => .refl m) (by rintro s m a s' m' ⟨⟩; exact .refl s)
  | none =>
    have hrun (s : Snapshot) (m : Memory) : (StepEngine.place (σ := Memory) run step none s).run m =
        match m.insertStepRun (step.newStepRun run) s with
        | (.ok x, m') => (.ok (⟨step, ⟨x.1, []⟩⟩, x.2), m')
        | (.error e, m') => (.error e, m') := by
      have hinsert : (Backend.insertStepRun (σ := Memory) (step.newStepRun run) s).run m =
          m.insertStepRun (step.newStepRun run) s := rfl
      simp only [StepEngine.place, Effect.run_bind, hinsert]
      rcases m.insertStepRun (step.newStepRun run) s with ⟨_ | ⟨_, _⟩, _⟩ <;> rfl
    refine stage (fun s m => ?_) fun s m bound s' m' h => ?_
    · have hw := grows_insertStepRun m s (step.newStepRun run)
      rw [hrun]
      split <;> rename_i h <;> rw [h] at hw <;> exact hw
    · rw [hrun] at h
      simp only [Memory.insertStepRun] at h
      split at h <;> cases h
      rename_i h
      split at h <;> cases h
      exact s.extends_stage fun _ => rfl

theorem placeStep (step : Step) (existing : Option StepRun) :
    StagesOnly (placeStep step existing : WorkM Memory BoundStep) := by
  intro w
  refine extends_bind (engine? w) fun e w₁ h₁ => ?_
  cases h₁
  refine extends_bind (place _ _ _ w) fun bound w₂ h₂ => ?_
  have he := stage_engine h₂
  refine extends_bind (extends_setEngine ?_) fun _ w₃ _ => pure bound w₃
  exact he ▸ ⟨rfl, rfl, rfl, rfl⟩

theorem enterStep (step : Step) (existing : Option StepRun) :
    StagesOnly (enterStep step existing : WorkM Memory BoundStep) := by
  refine bind (placeStep step existing) fun bound w => ?_
  refine extends_bind (engine? w) fun e w₁ h₁ => ?_
  cases h₁
  refine extends_bind (insertPosition _ w) fun p w₂ h₂ => ?_
  have he := stage_engine h₂
  refine extends_bind (extends_setEngine ?_) fun _ w₃ _ => pure bound w₃
  exact he ▸ ⟨rfl, rfl, rfl, rfl⟩

theorem advance (step : Step) : StagesOnly (advance step : WorkM Memory BoundStep) :=
  bind (fire _) fun _ => enterStep step none

theorem attempt (ctx : Context) (raw : Option String) :
    StagesOnly (attempt ctx raw : WorkM Memory (Except StepError StepResult)) := by
  intro w
  simp only [Work.attempt]
  cases hengine : w.engine.stepEngine with
  | idle => exact ⟨.refl _, .refl _, ⟨rfl, rfl, rfl, rfl⟩⟩
  | holding step progress =>
    cases progress with
    | complete => exact ⟨.refl _, .refl _, ⟨rfl, rfl, rfl, rfl⟩⟩
    | failed => exact ⟨.refl _, .refl _, ⟨rfl, rfl, rfl, rfl⟩⟩
    | ready =>
      let new := StepEngine.newAttempt step.stepRun.record.id raw
        (step.step.behavior.execute ctx.services raw w.engine.run.record.session)
      have hgrows := grows_insertAttempt w.store w.snapshot new
      have hinsert : (Backend.insertAttempt (σ := Memory) new w.snapshot).run w.store =
          w.store.insertAttempt new w.snapshot := rfl
      simp only [StepEngine.run]
      rw [hinsert]
      rcases hrun : w.store.insertAttempt new w.snapshot with ⟨e | ⟨a, s'⟩, m'⟩ <;>
        rw [hrun] at hgrows
      · dsimp only
        split <;> exact ⟨hgrows, .refl _, ⟨rfl, rfl, rfl, rfl⟩⟩
      · have hstaged : w.snapshot.Extends s' := by
          simp only [Memory.insertAttempt] at hrun
          split at hrun <;> cases hrun
          exact w.snapshot.extends_stage fun _ => rfl
        dsimp only
        split <;> exact ⟨hgrows, hstaged, ⟨rfl, rfl, rfl, rfl⟩⟩

theorem history (run : Int) : StagesOnly (Work.query (Backend.history (σ := Memory) run)) := by
  refine query fun m => ?_
  rw [Memory.history_run]
  exact .refl m

theorem nextOn (ctx : Context) (branch : String) (justSwitched : Bool) :
    StagesOnly (nextOn ctx branch justSwitched : WorkM Memory Step) := by
  refine bind engine? fun e => bind (configured _) fun b => ?_
  have hlast : StagesOnly (lastVisited branch : WorkM Memory (Option String)) :=
    bind engine? fun e => bind (history _) fun _ => pure _
  dsimp only
  split
  · refine bind (pure none) fun last => bind (configured _) fun index => ?_
    split
    · exact throw _
    · exact configured _
  · refine bind hlast fun last => bind (configured _) fun index => ?_
    split
    · exact throw _
    · exact configured _

theorem leave (exit : ExitPath) : StagesOnly (leave exit : WorkM Memory NextStep) :=
  bind (fire _) fun _ => pure _

theorem proceed (ctx : Context) : StagesOnly (proceed ctx : WorkM Memory NextStep) := by
  refine bind currentStep fun step => bind engine? fun e => bind (configured _) fun template => ?_
  split
  · exact bind (configured _) fun exit => leave exit
  · exact bind (nextOn _ _ _) fun next => bind (advance next) fun _ => pure _

theorem handleResult (ctx : Context) (result : StepResult) :
    StagesOnly (handleResult ctx result : WorkM Memory Outcome) := by
  unfold Work.handleResult
  split
  · exact bind (fire _) fun _ => bind currentStep fun step =>
      bind (placeStep _ _) fun _ => pure _
  · exact bind (configured _) fun exit => bind (leave exit) fun _ => pure _
  · exact bind (proceed ctx) fun _ => pure _

theorem switchOrStop (ctx : Context) (step : Step) (reason : StopReason) :
    StagesOnly (switchOrStop ctx step reason : WorkM Memory Outcome) := by
  unfold Work.switchOrStop
  split
  · exact throw _
  · refine bind (outcome (nextOn _ _ _)) fun next => ?_
    split
    · exact throw _
    · exact throw _
    · refine bind engine? fun e => ?_
      split
      · exact throw _
      · refine bind ?_ fun _ w => ?_
        · exact markBranched _
        · refine extends_bind (engine? w) fun e w₁ h₁ => ?_
          cases h₁
          exact extends_bind (extends_setEngine ⟨rfl, rfl, rfl, rfl⟩) fun _ w₂ _ =>
            bind (fire _) (fun _ => bind (advance _) fun _ => pure _) w₂

theorem retry (ctx : Context) (step : Step) (error : StepError) (target : RetryTarget)
    (retryingSelf : Bool) :
    StagesOnly (retry ctx step error target retryingSelf : WorkM Memory Outcome) := by
  unfold Work.retry
  dsimp only
  split
  · exact switchOrStop _ _ _
  · refine bind (fire _) fun _ => ?_
    split
    · exact bind (placeStep _ _) fun _ => pure _
    · exact bind (enterStep _ _) fun _ => pure _

theorem otherTarget (ctx : Context) (step : Step) (name : String) :
    StagesOnly (otherTarget ctx step name : WorkM Memory (Option RetryTarget)) := by
  refine bind engine? fun e => bind (configured _) fun branch => ?_
  split
  · exact pure none
  · refine bind (configured _) fun target => bind (query fun m => .refl m) fun found => ?_
    split
    · exact pure _
    · exact bind (query fun m => .refl m) fun attempts => pure _

theorem handleError (ctx : Context) (error : StepError) :
    StagesOnly (handleError ctx error : WorkM Memory Outcome) := by
  refine bind currentStep fun current => bind (fire _) fun _ => ?_
  split
  · exact switchOrStop _ _ _
  · dsimp only
    split
    · exact retry _ _ _ _ _
    · refine bind (otherTarget _ _ _) fun target => ?_
      split
      · exact switchOrStop _ _ _
      · exact retry _ _ _ _ _

theorem executeStep (ctx : Context) (raw : Option String) :
    StagesOnly (executeStep ctx raw : WorkM Memory Outcome) := by
  refine bind (attempt ctx raw) fun outcome => ?_
  split
  · exact handleResult _ _
  · exact handleError _ _

theorem takeUp (isInput : Bool) : StagesOnly (takeUp isInput : WorkM Memory Unit) := by
  refine bind engine? fun e => ?_
  split
  · exact fire _
  · exact pure ()
  · split
    · exact pure ()
    · exact throw _
  · exact throw _

theorem callStep (ctx : Context) (raw : Option String) :
    StagesOnly (callStep ctx raw : WorkM Memory Outcome) := by
  refine bind currentStep fun step => bind (takeUp _) fun _ => ?_
  split
  · refine bind engine? fun e => ?_
    split
    · exact bind (fire _) fun _ => executeStep ctx raw
    · exact bind (fire _) fun _ => pure _
  · exact executeStep ctx raw

theorem enterFirst (ctx : Context) : StagesOnly (enterFirst ctx : WorkM Memory Unit) := by
  refine bind engine? fun e => bind (configured _) fun branch => ?_
  split
  · exact throw _
  · exact bind (configured _) fun step => bind (enterStep step none) fun _ => fire _

theorem registerStop : StagesOnly (registerStop : WorkM Memory Unit) := by
  intro w
  rw [registerStop_run]
  unfold Engine.stopped
  split <;> exact ⟨.refl _, .refl _, ⟨rfl, rfl, rfl, rfl⟩⟩

end StagesOnly

/-! ## Refusals -/

theorem run_error {x : WorkM Memory α} {e : Engine} {m : Memory} {failure : EngineError}
    {w : Work Memory} (hx : x.run ⟨m, .empty, e⟩ = (.error failure, w))
    (hf : ¬ Committed (.error failure : Except EngineError α)) :
    Work.run x e m = ((.error failure, w.engine), w.store) := by
  have hsettled : (settled x).run ⟨m, .empty, e⟩ = (.error failure, w) := by
    simp only [settled, Effect.run_bind, Effect.run_outcome, hx]
    cases failure with
    | unrecoverable branch step reason => exact absurd trivial hf
    | _ => rfl
  have hopen : (Backend.openSnapshot (σ := Memory)).run m = (.ok .empty, m) := rfl
  simp only [Work.run, hopen, hsettled]

theorem updateRun_run (r : RunRecord) (s : Snapshot) (m : Memory) :
    (Backend.updateRun (σ := Memory) r s).run m = m.updateRun r s := rfl

theorem save_run_refused {w : Work Memory} {failure : StorageError}
    (h : w.store.updateRun w.engine.run.toRecord w.snapshot = (.error failure, w.store)) :
    save.run w = (.error (.ofStorage failure), w) := by
  have hstage : (stage (Backend.updateRun (σ := Memory) w.engine.run.toRecord)).run w =
      (.error (.ofStorage failure), w) := by
    simp only [stage, updateRun_run, h]
  have hengine : (engine? (σ := Memory)).run w = (.ok w.engine, w) := rfl
  simp only [save, Effect.run_bind, hengine, hstage]

theorem save_run_staged {w : Work Memory} {version : Int} {s : Snapshot}
    (h : w.store.updateRun w.engine.run.toRecord w.snapshot = (.ok (version, s), w.store)) :
    save.run w = (.ok (), { w with
      snapshot := s
      engine := { w.engine with run := w.engine.run.atVersion version } }) := by
  have hstage : (stage (Backend.updateRun (σ := Memory) w.engine.run.toRecord)).run w =
      (.ok version, { w with snapshot := s }) := by
    simp only [stage, updateRun_run, h]
  have hengine : (engine? (σ := Memory)).run w = (.ok w.engine, w) := rfl
  simp only [save, Effect.run_bind, hengine, hstage]
  rfl

theorem committed_error_iff {failure : EngineError} :
    Committed (.error failure : Except EngineError α) ↔
      Committed (.error failure : Except EngineError β) := by
  cases failure <;> rfl

theorem not_committed_ofStorage (failure : StorageError) :
    ¬ Committed (.error (.ofStorage failure) : Except EngineError α) := by
  cases failure <;> exact id

theorem save_conflict {w : Work Memory} {c : RunRecord} (hs : Snapshot.empty.Extends w.snapshot)
    (hc : w.store.runs.get? w.engine.run.record.id = some c)
    (hv : c.version ≠ w.engine.run.record.version) :
    save.run w = (.error (.concurrentModification w.engine.run.record.id), w) := by
  have hid : w.engine.run.toRecord.id = w.engine.run.record.id := rfl
  have hversion : w.engine.run.toRecord.version = w.engine.run.record.version := rfl
  have hrefused : w.store.updateRun w.engine.run.toRecord w.snapshot =
      (.error (.concurrentConflict w.engine.run.record.id w.engine.run.record.version),
        w.store) := by
    simp only [Memory.updateRun, Memory.version?, hs.version?, Option.none_or, hid, hversion, hc,
      Option.map_some, if_neg hv]
  exact save_run_refused hrefused

/-- A run that was changed in the meantime is not saved. -/
theorem save_stale {w : Work Memory} (hs : Snapshot.empty.Extends w.snapshot)
    (hw : w.engine.Stale w.store) :
    ∃ failure, save.run w = (.error failure, w) ∧
      ¬ Committed (.error failure : Except EngineError α) := by
  have hid : w.engine.run.toRecord.id = w.engine.run.record.id := rfl
  cases hc : w.store.runs.get? w.engine.run.record.id with
  | none =>
    have hrefused : w.store.updateRun w.engine.run.toRecord w.snapshot =
        (.error (.runNotFound w.engine.run.record.id), w.store) := by
      simp only [Memory.updateRun, Memory.version?, hs.version?, Option.none_or, hid, hc,
        Option.map_none]
    exact ⟨_, save_run_refused hrefused, not_committed_ofStorage _⟩
  | some c => exact ⟨_, save_conflict hs hc (hw c hc), id⟩

/-- Where no save goes through, work that would be committed fails as its save does. -/
theorem run_unsaved {x : WorkM Memory α} (hx : StagesOnly x) {e : Engine} {m : Memory}
    {P : EngineError → Prop} (hsave : ∀ w, Extends ⟨m, .empty, e⟩ w →
      ∃ failure, save.run w = (.error failure, w) ∧ P failure)
    (hcommitted : Committed (x.run ⟨m, .empty, e⟩).1) :
    ∃ failure, (Work.run x e m).1.1 = .error failure ∧ P failure ∧
      m.Grows (Work.run x e m).2 := by
  have hopen : (Backend.openSnapshot (σ := Memory)).run m = (.ok .empty, m) := rfl
  have hw := hx ⟨m, .empty, e⟩
  rcases hrun : x.run ⟨m, .empty, e⟩ with ⟨r, w⟩
  rw [hrun] at hw hcommitted
  have hsettle : ∃ failure w', (settled x).run ⟨m, .empty, e⟩ = (.error failure, w') ∧
      P failure ∧ m.Grows w'.store := by
    simp only [settled, Effect.run_bind, Effect.run_outcome, hrun]
    match r, hcommitted with
    | .ok value, _ =>
      obtain ⟨failure, hsave, hf⟩ := hsave w hw
      refine ⟨failure, w, ?_, hf, hw.store⟩
      simp only [settle, Effect.run_bind, hsave]
    | .error (.unrecoverable branch step reason), _ =>
      have hstop := StagesOnly.registerStop w
      rw [registerStop_run] at hstop
      obtain ⟨failure, hsave, hf⟩ := hsave _ (hw.trans hstop)
      refine ⟨failure, _, ?_, hf, (hw.trans hstop).store⟩
      simp only [settle, Effect.run_bind, registerStop_run, hsave]
  obtain ⟨failure, w', hsettled, hf, hgrows⟩ := hsettle
  refine ⟨failure, ?_, hf, ?_⟩ <;> simp only [Work.run, hopen, hsettled]
  exact hgrows

/-- Whatever the work was, a run that was changed in the meantime is not changed by it. -/
theorem run_stale {x : WorkM Memory α} (hx : StagesOnly x) {e : Engine} {m : Memory}
    (h : e.Stale m) :
    ¬ Committed (Work.run x e m).1.1 ∧ m.Grows (Work.run x e m).2 := by
  by_cases hr : Committed (x.run ⟨m, .empty, e⟩).1
  · have hsave (w : Work Memory) (hw : Extends ⟨m, .empty, e⟩ w) :
        ∃ failure, save.run w = (.error failure, w) ∧
          ¬ Committed (.error failure : Except EngineError α) := by
      refine save_stale hw.snapshot fun c hc => ?_
      rw [hw.store.tables.runs, hw.engine.id] at hc
      rw [hw.engine.version]
      exact h c hc
    obtain ⟨failure, htold, hf, hgrows⟩ := run_unsaved hx hsave hr
    exact ⟨htold ▸ hf, hgrows⟩
  · rcases hrun : x.run ⟨m, .empty, e⟩ with ⟨r, w⟩
    have hw := hx ⟨m, .empty, e⟩
    rw [hrun] at hr hw
    cases r with
    | ok value => exact absurd trivial hr
    | error failure =>
      rw [run_error hrun hr]
      exact ⟨hr, hw.store⟩

end Work
end CallFlow
