import CallFlow.Proofs.Engine.Opening

/-! # Calls of engines that were overtaken

An engine that holds an older version of its run may be placed at a position and a step that the
store has. Its call then makes the same moves as any other one. A place in the history may be taken
already, and the step may ask for what it cannot be given; no other move fails. Whatever else comes
of the call, the run is not saved, so the call is told that its run was modified.
-/
namespace CallFlow
open Memory Work

/-- The outcome is to be committed, or another call of the run was first to take a place. -/
def Contested {α : Type} (run : Int) (y : Except EngineError α × Work Memory) : Prop :=
  Committed y.1 ∨ y.1 = .error (.concurrentModification run)

namespace Contested
variable {α β : Type} {run : Int}

theorem of_eq {y z : Except EngineError α × Work Memory} (h : y = z) (hz : Contested run z) :
    Contested run y := h ▸ hz

theorem map {x : WorkM Memory α} {f : α → WorkM Memory β} {w : Work Memory}
    (hx : Contested run (x.run w)) (hf : ∀ a w', Committed ((f a).run w').1) :
    Contested run ((x >>= f).run w) := by
  rcases hrun : x.run w with ⟨failure | a, w'⟩
  · rw [hrun] at hx
    rw [Effect.bind_of_error hrun]
    refine hx.imp committed_error_iff.mp fun heq => ?_
    cases heq
    rfl
  · rw [Effect.bind_of_ok hrun]
    exact .inl (hf a w')

end Contested

namespace Work

structure Supported (registry : Registry) (w : Work Memory) (p : PositionRecord) (b : BoundStep) :
    Prop where
  store : w.store.Sound
  flow : w.engine.config.tree.WellFormed registry
  recorded : w.store.Recorded registry w.engine.config w.engine.run.record.id
  run : w.store.runs.contains w.engine.run.record.id = true
  branch : w.engine.run.record.branch ∈ w.engine.config.tree.branches.map (·.name)
  position : w.engine.position = some p
  known : w.store.positions.contains p.id = true
  step : w.engine.config.HasStep registry b.step
  stepRun : w.store.stepRuns.contains b.stepRun.record.id = true
  current : w.engine.stepEngine.current? = some b

/-! ## Entering a step -/

section Entering
variable {w : Work Memory}

theorem insertPosition_contested (stepRun : Int)
    (hs : w.store.knowsStepRun w.snapshot stepRun = true) :
    Contested w.engine.run.record.id ((stage (Backend.insertPosition (σ := Memory)
      ⟨w.engine.run.record.id, stepRun, w.engine.nextOrder⟩)).run w) := by
  rw [insertPosition_afterPosition w stepRun hs]
  split
  · exact .inr rfl
  · exact .inl trivial

theorem enterStep_contested (step : Step) {existing : Option StepRun}
    (hr : w.store.runs.contains w.engine.run.record.id = true)
    (hs : ∀ stepRun, existing = some stepRun →
      w.store.stepRuns.contains stepRun.record.id = true) :
    Contested w.engine.run.record.id ((enterStep step existing).run w) := by
  cases existing with
  | none =>
    refine .of_eq (Effect.bind_of_ok (placeStep_afterVisit w step hr)) ?_
    refine .of_eq (Effect.bind_of_ok (engine?_run _)) ?_
    refine (insertPosition_contested (w := w.afterVisit step) _ ?_).map fun _ _ => trivial
    simp [Memory.knowsStepRun, Snapshot.hasStepRun, Snapshot.stage]
  | some stepRun =>
    refine .of_eq (Effect.bind_of_ok (placeStep_run_bound w step stepRun)) ?_
    refine .of_eq (Effect.bind_of_ok (engine?_run _)) ?_
    let w' : Work Memory := { w with engine := w.engine.holding ⟨step, stepRun⟩ .ready }
    refine (insertPosition_contested (w := w') _ ?_).map fun _ _ => trivial
    simp [w', Memory.knowsStepRun, hs stepRun rfl]

theorem advance_contested (step : Step)
    (hr : w.store.runs.contains w.engine.run.record.id = true)
    (hs : Trigger.advanceStep.fire? w.engine.run.state = some .stepInProgress) :
    Contested w.engine.run.record.id ((advance step).run w) := by
  refine .of_eq (Effect.bind_of_ok (fire_run hs)) ?_
  exact enterStep_contested (w := { w with engine := w.engine.inState .stepInProgress }) step hr
    (fun _ h => by cases h)

end Entering

/-! ## The moves of a call -/

namespace Supported
variable {ctx : Context} {w : Work Memory} {p : PositionRecord} {b : BoundStep}
variable (h : w.Supported ctx.registry p b)
include h

theorem inState (state : RunState) :
    Supported ctx.registry { w with engine := w.engine.inState state } p b :=
  ⟨h.store, h.flow, h.recorded, h.run, h.branch, h.position, h.known, h.step, h.stepRun, h.current⟩

theorem nextOn {br : Branch} (hbr : br ∈ w.engine.config.tree.branches) (justSwitched : Bool) :
    (∃ step, (nextOn ctx br.name justSwitched).run w = (.ok step, w)) ∨
      ∃ branch name reason, (Work.nextOn ctx br.name justSwitched).run w =
        (.error (.unrecoverable branch name reason), w) := by
  rw [nextOn_run ctx justSwitched h.store (h.flow.branch_eq hbr)]
  have hlast (name : String) (hname : (if justSwitched && br.resetOnSwitch then none
      else lastOn br.name (w.store.historyOf w.engine.run.record.id)) = some name) :
      ∃ t ∈ br.steps, t.name = name := by
    split at hname
    · cases hname
    · exact lastOn_mem h.flow hbr h.recorded hname
  rcases Branch.following_cases h.flow hbr hlast with ⟨next, hnext, -, -⟩ | hnext
  · exact .inl ⟨next, by rw [hnext]⟩
  · exact .inr ⟨_, _, _, by rw [hnext]⟩

theorem proceed (hs : w.engine.run.state = .stepInProgress ∨
      w.engine.run.state = .processingInput) :
    Contested w.engine.run.record.id ((proceed ctx).run w) := by
  obtain ⟨br, t, hfrom⟩ := h.step.builtFrom
  refine .of_eq (Effect.bind_of_ok (currentStep_run h.current)) ?_
  refine .of_eq (Effect.bind_of_ok (engine?_run _)) ?_
  refine .of_eq (Effect.bind_of_ok (configured_run_ok (hfrom.found h.flow))) ?_
  cases hexit : t.exitPath with
  | some exit =>
    obtain ⟨path, hpath⟩ := h.flow.exits br hfrom.branch t hfrom.template exit hexit
    have hfinish : Trigger.finish.fire? w.engine.run.state = some .finished := by
      rcases hs with hs | hs <;> rw [hs] <;> rfl
    refine .of_eq (Effect.bind_of_ok (configured_run_ok (Registry.buildExitTemplate_eq_ok.mpr hpath))) ?_
    exact .of_eq (leave_run path hfinish) (.inl trivial)
  | none =>
    have hadvance : Trigger.advanceStep.fire? w.engine.run.state = some .stepInProgress := by
      rcases hs with hs | hs <;> rw [hs] <;> rfl
    obtain ⟨on, hon, hname⟩ := List.mem_map.mp h.branch
    dsimp only
    rw [← hname]
    rcases h.nextOn hon (on.name ≠ b.step.branch) with ⟨next, hnext⟩ | ⟨_, _, _, hnext⟩
    · refine .of_eq (Effect.bind_of_ok hnext) ?_
      exact (advance_contested next h.run hadvance).map fun _ _ => trivial
    · exact .of_eq (Effect.bind_of_error hnext) (.inl trivial)

section Failing
variable (hs : w.engine.run.state = .error)
include hs

theorem switchOrStop (reason : StopReason) :
    Contested w.engine.run.record.id ((switchOrStop ctx b.step reason).run w) := by
  cases htarget : b.step.switchTarget with
  | none => exact .of_eq (switchOrStop_run_none htarget) (.inl trivial)
  | some target =>
    obtain ⟨br, t, hfrom⟩ := h.step.builtFrom
    have hnamed : t.switchTarget = some target := by
      rw [← hfrom.built.switchTarget, htarget]
    obtain ⟨dest, hdest, rfl⟩ := List.mem_map.mp
      (h.flow.switchTargets br hfrom.branch t hfrom.template target hnamed)
    simp only [Work.switchOrStop, htarget]
    have houtcome := Effect.run_outcome (δ := EngineError)
      (Work.nextOn ctx dest.name (dest.name ≠ b.step.branch)) w
    rcases h.nextOn hdest (dest.name ≠ b.step.branch) with ⟨next, hnext⟩ | ⟨_, _, _, hnext⟩
    · rw [hnext] at houtcome
      let s' := w.snapshot.stage (.markBranched p.id)
      have hmark : (stage fun s => do return ((), ← Backend.markBranched (σ := Memory) p.id s)).run
          w = (.ok (), { w with snapshot := s' }) := by
        have hknows : w.store.knowsPosition w.snapshot p.id = true := by
          simp only [Memory.knowsPosition, h.known, Bool.or_true]
        simp only [stage, markBranched_run, if_pos hknows, s']
      let left : PositionRecord := { p with branchedOnError := true }
      let e₁ := (w.engine.located left).onBranch dest.name
      have hfire : (fire .unregisterError).run ⟨w.store, s', e₁⟩ =
          (.ok (), ⟨w.store, s', e₁.inState .stepInProgress⟩) :=
        fire_run (by rw [show (Work.mk w.store s' e₁).engine.run.state = .error from hs]; rfl)
      refine .of_eq (Effect.bind_of_ok houtcome) ?_
      refine .of_eq (Effect.bind_of_ok (engine?_run _)) ?_
      simp only [h.position]
      refine .of_eq (Effect.bind_of_ok hmark) ?_
      refine .of_eq (Effect.bind_of_ok (engine?_run _)) ?_
      refine .of_eq (Effect.bind_of_ok (show (setEngine e₁).run { w with snapshot := s' } =
        (.ok (), ⟨w.store, s', e₁⟩) from rfl)) ?_
      refine .of_eq (Effect.bind_of_ok hfire) ?_
      exact (advance_contested (w := ⟨w.store, s', e₁.inState .stepInProgress⟩) next h.run rfl).map
        fun _ _ => trivial
    · rw [hnext] at houtcome
      exact .of_eq (Effect.bind_of_ok houtcome) (.inl trivial)

theorem retry_self (error : StepError) :
    Contested w.engine.run.record.id
      ((retry ctx b.step error ⟨b.step, some b.stepRun⟩ true).run w) := by
  by_cases hbudget : ctx.budget b.step ≤ priorAttempts ⟨b.step, some b.stepRun⟩ true
  · rw [retry_run_exhausted hbudget]
    exact h.switchOrStop hs _
  · exact .of_eq (retry_run_self hs (Nat.lt_of_not_le hbudget)) (.inl trivial)

theorem retry_other (error : StepError) {target : RetryTarget}
    (hstored : ∀ stepRun, target.stepRun = some stepRun →
      w.store.stepRuns.contains stepRun.record.id = true) :
    Contested w.engine.run.record.id ((retry ctx b.step error target false).run w) := by
  by_cases hbudget : ctx.budget target.step ≤ priorAttempts target false
  · rw [retry_run_exhausted hbudget]
    exact h.switchOrStop hs _
  · unfold Work.retry
    simp only [ge_iff_le, hbudget, if_false, Bool.false_eq_true]
    refine .of_eq (Effect.bind_of_ok (fire_run_retry hs)) ?_
    exact (enterStep_contested
      (w := { w with engine := w.engine.inState (retried target.step) }) target.step h.run
      hstored).map fun _ _ => trivial

end Failing

theorem handleError (error : StepError) (hs : w.engine.run.state = .stepInProgress ∨
      w.engine.run.state = .processingInput) :
    Contested w.engine.run.record.id ((handleError ctx error).run w) := by
  have hfire : Trigger.registerError.fire? w.engine.run.state = some .error := by
    rcases hs with hs | hs <;> rw [hs] <;> rfl
  have herror := h.inState .error
  refine .of_eq (Effect.bind_of_ok (currentStep_run h.current)) ?_
  refine .of_eq (Effect.bind_of_ok (fire_run hfire)) ?_
  dsimp only
  by_cases hretry : error.retryable = true
  · rw [hretry, if_neg (by decide)]
    by_cases hself : targetName b.step error = b.step.name
    · rw [if_pos hself]
      exact herror.retry_self rfl error
    · rw [if_neg hself]
      obtain ⟨br, _, hfrom⟩ := h.step.builtFrom
      have hfound := hfrom.foundBranch h.flow
      cases ht : br.step? (targetName b.step error) with
      | none =>
        refine .of_eq (Effect.bind_of_ok (otherTarget_run_none hfound ht)) ?_
        exact herror.switchOrStop rfl _
      | some t =>
        obtain ⟨target, htarget⟩ :=
          h.flow.exists_built hfrom.branch (List.mem_of_find?_eq_some ht)
        rw [hfrom.on] at htarget
        refine .of_eq (Effect.bind_of_ok (otherTarget_run_some hfound ht htarget)) ?_
        refine herror.retry_other rfl error fun stepRun hfind => ?_
        obtain ⟨s, hs, rfl⟩ := Option.map_eq_some_iff.mp hfind
        exact Table.contains_of_get? (h.store.findStepRun hs).1
  · rw [Bool.not_eq_true _ |>.mp hretry, if_pos (by decide)]
    exact herror.switchOrStop rfl _

omit h in
theorem afterAttempt (h : w.Supported ctx.registry p b) (raw : Option String)
    (x : StepBehavior.Execution) :
    Supported ctx.registry (w.afterAttempt raw b x) p
      ⟨b.step, b.stepRun.push (b.newAttempt raw x w.store.nextId w.store.clock)⟩ := by
  have hgrows := w.store.grows_allocate
  exact ⟨hgrows.tables.sound hgrows.nextId h.store, h.flow,
    h.recorded.sameLeg (hgrows.tables.sameLeg _), h.run, h.branch, h.position, h.known, h.step,
    h.stepRun, rfl⟩

end Supported
end Work

namespace Engine
variable {ctx : Context} {m : Memory} {e : Engine} {p : PositionRecord} {b : BoundStep}
variable {raw : Option String}

/-! ## What the step asks for -/

theorem not_impossible_error {error : StepError} {failure : EngineError} :
    ¬ e.Impossible ctx (.error error) failure := by
  intro h
  cases h <;> contradiction

theorem not_impossible_of_completes {result : StepResult} (hcompletes : result.Completes)
    {failure : EngineError} : ¬ e.Impossible ctx (.ok result) failure := by
  intro h
  cases h with
  | queue leaves =>
    cases leaves
    exact hcompletes
  | replay replays =>
    cases replays
    exact hcompletes

theorem not_impossible_replay (hb : e.stepEngine.current? = some b) (hinput : b.step.isInput = true)
    {message : Option String} {failure : EngineError} :
    ¬ e.Impossible ctx (.ok (.replay message)) failure := by
  intro h
  cases h with
  | queue leaves => cases leaves
  | replay _ missing =>
    rw [missing b hb] at hinput
    cases hinput

theorem not_impossible_queue {queue : Option String} {path : ExitPath}
    (hpath : queueExit ctx queue = .ok path) {failure : EngineError} :
    ¬ e.Impossible ctx (.ok (.exitQueue queue)) failure := by
  intro h
  cases h with
  | queue leaves missing =>
    cases leaves
    rw [hpath] at missing
    cases missing
  | replay replays => cases replays

/-! ## Calls before they are settled -/

theorem Plays.contested {a : AttemptRecord} {x : StepBehavior.Execution}
    {y : Except EngineError Outcome × Work Memory} (h : e.Plays ctx m p b a x y) (run : Int) :
    Contested run y := by
  cases h with
  | intro goes => cases goes <;> exact .inl trivial

inductive Races (ctx : Context) (e : Engine) (raw : Option String)
    (y : Except EngineError Outcome × Work Memory) : Prop
  | contested (possible : ∀ x failure, e.execution? ctx raw = some x →
      ¬ e.Impossible ctx x.outcome failure) (contested : Contested e.run.record.id y)
  | impossible {x failure} (executed : e.execution? ctx raw = some x)
      (impossible : e.Impossible ctx x.outcome failure) (told : y.1 = .error failure)

theorem Races.of_eq {y z : Except EngineError Outcome × Work Memory} (h : y = z)
    (hz : e.Races ctx raw z) : e.Races ctx raw y := h ▸ hz

theorem Races.of_waits {y : Except EngineError Outcome × Work Memory}
    (hnone : e.execution? ctx raw = none) (hy : Contested e.run.record.id y) : e.Races ctx raw y :=
  .contested (fun x failure hx => by rw [hnone] at hx; cases hx) hy

theorem Races.of_execution {x : StepBehavior.Execution}
    {y : Except EngineError Outcome × Work Memory} (hx : e.execution? ctx raw = some x)
    (hnot : ∀ failure, ¬ e.Impossible ctx x.outcome failure) (hy : Contested e.run.record.id y) :
    e.Races ctx raw y := by
  refine .contested (fun x' failure hx' => ?_) hy
  obtain rfl : x = x' := Option.some.inj (hx.symm.trans hx')
  exact hnot failure

section Supported
variable (h : (during m m.nextId .nothing e).Supported ctx.registry p b)
  (hready : e.stepEngine = .holding b .ready)
include h hready

theorem executeStep_races {state : RunState}
    (hstate : state = .processingInput ∧ b.step.isInput = true ∨
      state = .stepInProgress ∧ b.step.isInput = false)
    (hx : e.execution? ctx raw =
      some (b.step.behavior.execute ctx.services raw e.run.record.session)) :
    e.Races ctx raw ((executeStep ctx raw).run (during m m.nextId .nothing (e.inState state))) := by
  have hcurrent : e.stepEngine.current? = some b := by rw [hready]; rfl
  let x := b.step.behavior.execute ctx.services raw e.run.record.session
  let a := b.newAttempt raw x m.nextId m.clock
  have hattempt : (attempt ctx raw).run (during m m.nextId .nothing (e.inState state)) =
      (.ok x.outcome, attempted m e b a x state) :=
    attempt_run ctx raw (e := e.inState state) hready h.stepRun
  have hafter : (attempted m e b a x state).Supported ctx.registry p ⟨b.step, b.stepRun.push a⟩ :=
    (h.inState state).afterAttempt raw x
  have hrunning : state = .stepInProgress ∨ state = .processingInput :=
    hstate.elim (fun hs => .inr hs.1) (fun hs => .inl hs.1)
  have hcompleted {result : StepResult} (hcompletes : result.Completes)
      (hout : x.outcome = .ok result) : e.Races ctx raw
        ((do return ⟨result, ← proceed ctx⟩ : WorkM Memory Outcome).run
          (attempted m e b a x state)) := by
    refine .of_execution hx (fun failure => ?_) ((hafter.proceed hrunning).map fun _ _ => trivial)
    rw [hout]
    exact not_impossible_of_completes hcompletes
  refine .of_eq (Effect.bind_of_ok hattempt) ?_
  cases hout : x.outcome with
  | error error =>
    refine .of_execution hx (fun failure => ?_) (hafter.handleError error hrunning)
    rw [hout]
    exact not_impossible_error
  | ok result =>
    cases result with
    | success message => exact hcompleted trivial hout
    | inputSuccess input message => exact hcompleted trivial hout
    | error message retryable resetStep => exact hcompleted trivial hout
    | replay message =>
      rcases hstate with ⟨rfl, hinput⟩ | ⟨rfl, hinput⟩
      · have hplays : e.Plays ctx m p b a x
            ((handleResult ctx (.replay message)).run (attempted m e b a x .processingInput)) :=
          Seated.replay_plays hout rfl hinput
        refine .of_execution hx (fun failure => ?_) (hplays.contested _)
        rw [hout]
        exact not_impossible_replay hcurrent hinput
      · refine .impossible hx (.replay hout fun b' hb' => ?_) ?_
        · obtain rfl : b = b' := Option.some.inj (hcurrent.symm.trans hb')
          exact hinput
        · exact congrArg Prod.fst (Effect.bind_of_error (fire_run_error rfl))
    | exitQueue queue =>
      cases hpath : queueExit ctx queue with
      | ok path =>
        have hplays : e.Plays ctx m p b a x
            ((handleResult ctx (.exitQueue queue)).run (attempted m e b a x state)) :=
          Seated.exitQueue_plays hout rfl hpath hrunning
        refine .of_execution hx (fun failure => ?_) (hplays.contested _)
        rw [hout]
        exact not_impossible_queue hpath
      | error cause =>
        have hconfigured : (configured (queueExit ctx queue)).run (attempted m e b a x state) =
            (.error (.config cause), attempted m e b a x state) := by
          rw [hpath]
          rfl
        exact .impossible hx (.queue hout hpath)
          (congrArg Prod.fst (Effect.bind_of_error hconfigured))

/-- A run that was not prompted for its step: an input step is prompted for, any other step is
executed. -/
theorem started_races (hs : e.run.state = .initialized ∨ e.run.state = .stepInProgress) :
    e.Races ctx raw ((callStep ctx raw).run (during m m.nextId .nothing e)) := by
  refine .of_eq (Effect.bind_of_ok (currentStep_run h.current)) ?_
  refine .of_eq (Effect.bind_of_ok (takeUp_run_started _ hs)) ?_
  cases hinput : b.step.isInput with
  | true =>
    have hwaits : e.execution? ctx raw = none :=
      execution_eq_none h.current hinput (by rcases hs with hs | hs <;> simp [hs])
    have hfire : (fire .requestUserInput).run
        (during m m.nextId .nothing (e.inState .stepInProgress)) =
          (.ok (), during m m.nextId .nothing (e.inState .requestingUserInput)) := fire_run rfl
    have hask : Contested e.run.record.id
        ((askForInput b).run (during m m.nextId .nothing (e.inState .stepInProgress))) :=
      .of_eq (Effect.bind_of_ok hfire) (.inl trivial)
    exact .of_waits hwaits hask
  | false =>
    exact executeStep_races h hready (.inr ⟨rfl, hinput⟩)
      (execution_eq_some h.current (.inr ⟨hinput, hs⟩))

theorem prompted_races (hs : e.run.state = .requestingUserInput) (hinput : b.step.isInput = true) :
    e.Races ctx raw ((callStep ctx raw).run (during m m.nextId .nothing e)) := by
  have hfire : (fire .processingUserInput).run (during m m.nextId .nothing e) =
      (.ok (), during m m.nextId .nothing (e.inState .processingInput)) :=
    fire_run (by simp only [during, hs]; rfl)
  refine .of_eq (Effect.bind_of_ok (currentStep_run h.current)) ?_
  refine .of_eq (Effect.bind_of_ok (takeUp_run_prompted hinput hs)) ?_
  rw [if_pos hinput]
  refine .of_eq (Effect.bind_of_ok (engine?_run _)) ?_
  rw [show (during m m.nextId .nothing e).engine.run.state = _ from hs, if_pos rfl]
  refine .of_eq (Effect.bind_of_ok hfire) ?_
  exact executeStep_races h hready (.inl ⟨rfl, hinput⟩) (execution_eq_some h.current (.inl hs))

end Supported

/-! ## What an overtaken engine is told -/

structure Placed (registry : Registry) (m : Memory) (e : Engine) (p : PositionRecord)
    (b : BoundStep) : Prop where
  position : e.position = some p
  known : m.positions.contains p.id = true
  ready : e.stepEngine = .holding b .ready
  step : e.config.HasStep registry b.step
  stepRun : m.stepRuns.contains b.stepRun.record.id = true

/-- Where an engine may stand that was overtaken. The run as it holds it has not come to an end,
but it need not fit the step. -/
structure Behind (registry : Registry) (m : Memory) (e : Engine) : Prop where
  branch : e.run.record.branch ∈ e.config.tree.branches.map (·.name)
  settled : e.run.state ≠ .processingInput
  unended : e.run.state ≠ .finished ∧ e.run.state ≠ .error
  place : e.Waiting ∨ ∃ p b, e.Placed registry m p b

/-- A call of the engine gets as far as its step: the run that it holds was begun, and waits for
input only at a step that takes input. -/
structure TakesUp (e : Engine) (b : BoundStep) : Prop where
  current : e.stepEngine.current? = some b
  state : e.run.state = .initialized ∨ e.run.state = .stepInProgress ∨
    e.run.state = .requestingUserInput ∧ b.step.isInput = true

inductive Overtaken (ctx : Context) (e : Engine) (raw : Option String) : EngineError → Prop
  | raced {b : BoundStep} (takesUp : e.TakesUp b)
      (possible : ∀ x failure, e.execution? ctx raw = some x →
        ¬ e.Impossible ctx x.outcome failure) :
      Overtaken ctx e raw (.concurrentModification e.run.record.id)
  | impossible {b : BoundStep} {x failure} (takesUp : e.TakesUp b)
      (executed : e.execution? ctx raw = some x)
      (impossible : e.Impossible ctx x.outcome failure) : Overtaken ctx e raw failure
  /-- The engine was not prepared. -/
  | waiting (waiting : e.Waiting) : Overtaken ctx e raw (.initialization .noCurrentStep)
  /-- The engine was prepared at a step, and holds the run from before its first step. -/
  | unbegun {b : BoundStep} (current : e.stepEngine.current? = some b)
      (state : e.run.state = .uninitialized) : Overtaken ctx e raw (.notRunnable .uninitialized)
  /-- The engine holds the run as it waited for input, and was prepared at a later step. -/
  | unasked {b : BoundStep} (current : e.stepEngine.current? = some b)
      (state : e.run.state = .requestingUserInput) (input : b.step.isInput = false) :
      Overtaken ctx e raw (.notRunnable .requestingUserInput)

theorem Impossible.not_committed {outcome : Except StepError StepResult} {failure : EngineError}
    (h : e.Impossible ctx outcome failure) :
    ¬ Committed (.error failure : Except EngineError Outcome) := by
  cases h <;> exact id

theorem Impossible.ne_raced {outcome : Except StepError StepResult} {failure : EngineError}
    (h : e.Impossible ctx outcome failure) (run : Int) :
    failure ≠ .concurrentModification run := by
  cases h <;> exact nofun

/-- An overtaken engine is told so exactly where its call gets as far as its step and the step
does not ask for what it cannot be given. -/
theorem Overtaken.raced_iff {failure : EngineError} (h : e.Overtaken ctx raw failure) :
    failure = .concurrentModification e.run.record.id ↔
      (∃ b, e.TakesUp b) ∧ ∀ x cause, e.execution? ctx raw = some x →
        ¬ e.Impossible ctx x.outcome cause := by
  cases h with
  | raced takesUp possible => exact ⟨fun _ => ⟨⟨_, takesUp⟩, possible⟩, fun _ => rfl⟩
  | impossible _ executed impossible =>
    refine ⟨fun heq => absurd heq (impossible.ne_raced _), fun h => ?_⟩
    exact absurd impossible (h.2 _ _ executed)
  | waiting waiting =>
    refine ⟨nofun, fun ⟨⟨b, h⟩, _⟩ => ?_⟩
    have hcurrent := h.current
    rw [waiting.1] at hcurrent
    cases hcurrent
  | unbegun _ state =>
    refine ⟨nofun, fun ⟨⟨b, h⟩, _⟩ => ?_⟩
    simpa [state] using h.state
  | @unasked b current state input =>
    refine ⟨nofun, fun ⟨⟨b', h⟩, _⟩ => ?_⟩
    obtain rfl : b = b' := Option.some.inj (current.symm.trans h.current)
    simpa [state, input] using h.state

/-- Work that is contested is told that the run was modified. -/
theorem run_contested {α : Type} {x : WorkM Memory α} (hx : StagesOnly x) {c : RunRecord}
    (hc : m.runs.get? e.run.record.id = some c) (hv : c.version ≠ e.run.record.version)
    (h : Contested e.run.record.id (x.run (during m m.nextId .nothing e))) :
    (Work.run x e m).1.1 = .error (.concurrentModification e.run.record.id) := by
  rcases h with hcommitted | htold
  · have hsave (w : Work Memory) (hw : Extends ⟨m, .empty, e⟩ w) : ∃ failure,
        save.run w = (.error failure, w) ∧ failure = .concurrentModification e.run.record.id := by
      have hconflict : save.run w = _ := save_conflict (c := c) hw.snapshot
        (by rw [hw.store.tables.runs, hw.engine.id, hc]) (by rwa [hw.engine.version])
      exact ⟨_, hconflict, by rw [hw.engine.id]⟩
    obtain ⟨failure, htold, rfl, -⟩ := run_unsaved hx hsave hcommitted
    exact htold
  · rcases hrun : x.run (during m m.nextId .nothing e) with ⟨r, w⟩
    rw [hrun] at htold
    obtain rfl : r = _ := htold
    rw [run_error hrun id]

theorem takeUp_run_refused {isInput : Bool} (hs : e.run.state = .uninitialized ∨
      e.run.state = .requestingUserInput ∧ isInput = false) :
    (takeUp isInput).run (during m m.nextId .nothing e) =
      (.error (.notRunnable e.run.state), during m m.nextId .nothing e) := by
  refine (Effect.bind_of_ok (engine?_run _)).trans ?_
  rcases hs with hs | ⟨hs, rfl⟩ <;> simp only [during, hs] <;> rfl

section Placed
variable (hm : m.Sound) (hw : e.config.tree.WellFormed ctx.registry)
variable (hrec : m.Recorded ctx.registry e.config e.run.record.id)
variable {c : RunRecord} (hc : m.runs.get? e.run.record.id = some c)

include hm hw hrec hc in
theorem Placed.supported (h : e.Placed ctx.registry m p b)
    (hbranch : e.run.record.branch ∈ e.config.tree.branches.map (·.name)) :
    (during m m.nextId .nothing e).Supported ctx.registry p b :=
  ⟨hm, hw, hrec, Table.contains_of_get? hc, hbranch, h.position, h.known, h.step, h.stepRun, by
    rw [show (during m m.nextId .nothing e).engine.stepEngine = _ from h.ready]
    rfl⟩

theorem Placed.refused (h : e.Placed ctx.registry m p b) (raw : Option String)
    (hs : e.run.state = .uninitialized ∨
      e.run.state = .requestingUserInput ∧ b.step.isInput = false) :
    (e.runStep ctx raw m).1.1 = .error (.notRunnable e.run.state) := by
  have hcurrent : e.stepEngine.current? = some b := by rw [h.ready]; rfl
  have hcall : (callStep ctx raw).run (during m m.nextId .nothing e) =
      (.error (.notRunnable e.run.state), during m m.nextId .nothing e) :=
    (Effect.bind_of_ok (currentStep_run hcurrent)).trans
      (Effect.bind_of_error (takeUp_run_refused hs))
  unfold runStep
  rw [run_error hcall id]

include hm hw hrec hc

/-- A call that gets as far as its step makes its moves and is then refused. -/
theorem Placed.raced (h : e.Placed ctx.registry m p b)
    (hbranch : e.run.record.branch ∈ e.config.tree.branches.map (·.name))
    (hv : c.version ≠ e.run.record.version) (htakes : e.TakesUp b) (raw : Option String) :
    ∃ failure, (e.runStep ctx raw m).1.1 = .error failure ∧ e.Overtaken ctx raw failure := by
  have hsupported := h.supported hm hw hrec hc hbranch
  have hraces : e.Races ctx raw ((callStep ctx raw).run (during m m.nextId .nothing e)) := by
    rcases htakes.state with hs | hs | ⟨hs, hinput⟩
    · exact started_races hsupported h.ready (.inl hs)
    · exact started_races hsupported h.ready (.inr hs)
    · exact prompted_races hsupported h.ready hs hinput
  cases hraces with
  | contested possible hcontested =>
    exact ⟨_, run_contested (.callStep ctx raw) hc hv hcontested, .raced htakes possible⟩
  | @impossible x failure executed impossible told =>
    refine ⟨failure, ?_, .impossible htakes executed impossible⟩
    rcases hrun : (callStep ctx raw).run (during m m.nextId .nothing e) with ⟨r, w⟩
    rw [hrun] at told
    obtain rfl : r = _ := told
    unfold runStep
    rw [run_error hrun impossible.not_committed]

variable (ctx) in
/-- What an overtaken engine is told when it is called. -/
theorem Behind.told (h : e.Behind ctx.registry m) (hv : c.version ≠ e.run.record.version)
    (raw : Option String) :
    ∃ failure, (e.runStep ctx raw m).1.1 = .error failure ∧ e.Overtaken ctx raw failure := by
  rcases h.place with hwaiting | ⟨p, b, hplaced⟩
  · refine ⟨_, ?_, .waiting hwaiting⟩
    unfold runStep
    rw [run_error (hwaiting.callStep_run ctx m raw) id]
  · have hcurrent : e.stepEngine.current? = some b := by rw [hplaced.ready]; rfl
    have hraced := hplaced.raced hm hw hrec hc h.branch hv
    cases hs : e.run.state with
    | processingInput => exact absurd hs h.settled
    | finished => exact absurd hs h.unended.1
    | error => exact absurd hs h.unended.2
    | initialized => exact hraced ⟨hcurrent, .inl hs⟩ raw
    | stepInProgress => exact hraced ⟨hcurrent, .inr (.inl hs)⟩ raw
    | uninitialized =>
      refine ⟨_, hplaced.refused raw (.inl hs), ?_⟩
      rw [hs]
      exact .unbegun hcurrent hs
    | requestingUserInput =>
      cases hinput : b.step.isInput with
      | true => exact hraced ⟨hcurrent, .inr (.inr ⟨hs, hinput⟩)⟩ raw
      | false =>
        refine ⟨_, hplaced.refused raw (.inr ⟨hs, hinput⟩), ?_⟩
        rw [hs]
        exact .unasked hcurrent hs hinput

end Placed
end Engine
end CallFlow
