import CallFlow.Proofs.Engine.Ways

/-! # How a call of a seated engine ends

Where the flow is well-formed, no look-up of a call fails and no trigger is fired out of turn. So
every result and every failure of the executed step sends the run one of its ways, unless the step
asks for what cannot be given to it.
-/
namespace CallFlow
open Memory Work

inductive Engine.Plays (ctx : Context) (m : Memory) (e : Engine) (p : PositionRecord)
    (b : BoundStep) (a : AttemptRecord) (x : StepBehavior.Execution) :
    Except EngineError Outcome × Work Memory → Prop
  | intro {w answer e'} (goes : e.Goes ctx m b a x w answer)
      (engine : e'.outcome answer = w.engine m e b a x) :
      Plays ctx m e p b a x (answer, during m (w.nextId m) (w.change m e p a) e')

theorem Engine.Plays.of_eq {ctx : Context} {m : Memory} {e : Engine} {p : PositionRecord}
    {b : BoundStep} {a : AttemptRecord} {x : StepBehavior.Execution}
    {y z : Except EngineError Outcome × Work Memory} (h : y = z) (hz : e.Plays ctx m p b a x z) :
    e.Plays ctx m p b a x y := h ▸ hz

abbrev Work.attempted (m : Memory) (e : Engine) (b : BoundStep) (a : AttemptRecord)
    (x : StepBehavior.Execution) (state : RunState) : Work Memory :=
  during m (m.nextId + 1) ⟨some a, none, none, none⟩ ((e.tried b a x).inState state)

theorem Engine.stopped_of_error {e : Engine} (h : e.run.state = .error) : e.stopped = e := by
  unfold stopped
  rw [h]
  rfl

theorem Work.priorAttempts_other (m : Memory) (run : Int) (target : Step) :
    priorAttempts ⟨target, (m.findStepRun run target.branch target.name).map
      fun r => ⟨r, m.attemptsOf r.id⟩⟩ false = m.tries run target.branch target.name := by
  unfold priorAttempts Memory.tries
  cases m.findStepRun run target.branch target.name <;> rfl

theorem Work.priorAttempts_self (b : BoundStep) (a : AttemptRecord) :
    priorAttempts ⟨b.step, some (b.stepRun.push a)⟩ true = b.stepRun.attempts.length := by
  simp [priorAttempts, StepRun.runCount, StepRun.push]

namespace Engine.Seated
variable {ctx : Context} {m : Memory} {e : Engine} {p : PositionRecord} {b : BoundStep}
variable {a : AttemptRecord} {x : StepBehavior.Execution}

section Failing
variable {error : StepError}
variable (hm : m.Sound) (hw : e.config.tree.WellFormed ctx.registry)
variable (h : e.Seated ctx.registry m p b) (hout : x.outcome = .error error)
include hm hw h hout

theorem switchOrStop_plays {reason : StopReason} (hdenied : e.Denied ctx m b error reason) :
    e.Plays ctx m p b a x
      ((switchOrStop ctx b.step reason).run (attempted m e b a x .error)) := by
  have hstopped : ((e.tried b a x).inState .error).stopped = (e.tried b a x).inState .error :=
    stopped_of_error rfl
  cases ht : b.step.switchTarget with
  | none =>
    rw [switchOrStop_run_none ht]
    exact .intro (.stop hout hdenied ht) hstopped
  | some target =>
    obtain ⟨br, t, hfrom⟩ := h.step.builtFrom
    have htarget : t.switchTarget = some target := by
      rw [← hfrom.built.switchTarget, ht]
    obtain ⟨br', hbr', rfl⟩ := List.mem_map.mp
      (hw.switchTargets br hfrom.branch t hfrom.template target htarget)
    have hfound : e.config.tree.branch br'.name = .ok br' := hw.branch_eq hbr'
    have hlast : ∀ name, lastBefore b.step br' (m.historyOf e.run.record.id) = some name →
        ∃ t ∈ br'.steps, t.name = name := by
      intro name hname
      unfold lastBefore at hname
      split at hname
      · cases hname
      · exact lastOn_mem hw hbr' h.underway.recorded hname
    rcases Branch.following_cases hw hbr' hlast with ⟨next, hnext, hhas, hon⟩ | hnext
    · rw [switchOrStop_run_switch (e := (e.tried b a x).inState .error) hm (by omega) ht hfound
        hnext h.position (h.contains_position hm) (h.contains_run rfl) rfl
        (h.hasOrder_next rfl h.position)]
      refine .intro (.switch hout hdenied ht hfound hnext hhas hon) ?_
      show _ = (((e.tried b a x).inState .stepInProgress).onBranch next.branch).entered _ _ _
      rw [hon]
      rfl
    · rw [switchOrStop_run_stop (e := (e.tried b a x).inState .error) hm (by omega) ht hfound hnext]
      exact .intro (.deadEnd hout hdenied ht hfound hnext) hstopped

theorem retry_self_plays (hretry : error.retryable = true)
    (hself : targetName b.step error = b.step.name) :
    e.Plays ctx m p b a x ((retry ctx b.step error ⟨b.step, some (b.stepRun.push a)⟩ true).run
      (attempted m e b a x .error)) := by
  have hprior := priorAttempts_self b a
  by_cases hbudget : ctx.budget b.step ≤ b.stepRun.attempts.length
  · rw [retry_run_exhausted (by rw [hprior]; exact hbudget)]
    exact h.switchOrStop_plays hm hw hout (.spent hretry hself hbudget)
  · have hbudget := Nat.lt_of_not_le hbudget
    rw [retry_run_self rfl (by rw [hprior]; exact hbudget)]
    exact .intro (.retry hout hretry hself hbudget) rfl

/-- Another step of the branch is tried again, on its last step run if it has one. -/
theorem retry_other_plays {target : Step} (hretry : error.retryable = true)
    (ht : e.Targets ctx b error target) :
    e.Plays ctx m p b a x ((retry ctx b.step error
      ⟨target, (m.findStepRun e.run.record.id target.branch target.name).map
        fun r => ⟨r, m.attemptsOf r.id⟩⟩ false).run (attempted m e b a x .error)) := by
  have hfree := h.hasOrder_next (f := (e.tried b a x).inState .error) rfl h.position
  have hprior := priorAttempts_other m e.run.record.id target
  by_cases hbudget : ctx.budget target ≤ m.tries e.run.record.id target.branch target.name
  · rw [retry_run_exhausted (by rw [hprior]; exact hbudget)]
    exact h.switchOrStop_plays hm hw hout (.spentThere hretry ht hbudget)
  · have hbudget := Nat.lt_of_not_le hbudget
    rw [← hprior] at hbudget
    cases hfound : m.findStepRun e.run.record.id target.branch target.name with
    | none =>
      rw [hfound] at hprior hbudget
      rw [Option.map_none, retry_run_new rfl hfree (h.contains_run rfl) hbudget]
      exact .intro (.first hout hretry ht hfound (by rw [← hprior]; exact hbudget)) rfl
    | some s =>
      rw [hfound] at hprior hbudget
      obtain ⟨hget, -⟩ := hm.findStepRun hfound
      rw [Option.map_some, retry_run_bound rfl hfree (Table.contains_of_get? hget) hbudget]
      exact .intro (.reset hout hretry ht hfound (by rw [← hprior]; exact hbudget)) rfl

theorem handleError_plays {state : RunState}
    (hstate : state = .stepInProgress ∨ state = .processingInput) :
    e.Plays ctx m p b a x ((handleError ctx error).run (attempted m e b a x state)) := by
  have hcurrent : currentStep.run (attempted m e b a x state) =
      (.ok ⟨b.step, b.stepRun.push a⟩, attempted m e b a x state) := currentStep_run rfl
  have hfire : (fire .registerError).run (attempted m e b a x state) =
      (.ok (), attempted m e b a x .error) := by
    refine fire_run ?_
    show Trigger.registerError.fire? state = some .error
    rcases hstate with rfl | rfl <;> rfl
  refine .of_eq ((Effect.bind_of_ok hcurrent).trans (Effect.bind_of_ok hfire)) ?_
  dsimp only
  cases hretry : error.retryable with
  | false => exact h.switchOrStop_plays hm hw hout (.fatal hretry)
  | true =>
    rw [if_neg (by decide)]
    by_cases hself : targetName b.step error = b.step.name
    · rw [if_pos hself]
      exact h.retry_self_plays hm hw hout hretry hself
    · rw [if_neg hself]
      obtain ⟨br, _, hfrom⟩ := h.step.builtFrom
      have hfound := hfrom.foundBranch hw
      cases ht : br.step? (targetName b.step error) with
      | none =>
        refine .of_eq (Effect.bind_of_ok (otherTarget_run_none hfound ht)) ?_
        exact h.switchOrStop_plays hm hw hout (.offBranch hretry hfound ht)
      | some t =>
        have htb : t ∈ br.steps := List.mem_of_find?_eq_some ht
        have htn : t.name = targetName b.step error := by simpa using List.find?_some ht
        obtain ⟨target, htarget⟩ := hw.exists_built hfrom.branch htb
        have htargets : e.Targets ctx b error target :=
          ⟨⟨br, hfrom.branch, t, htb, htarget⟩, htarget.branch.trans hfrom.on,
            htarget.name.trans htn,
            by rw [htarget.name, htn]; exact hself⟩
        have hplays := h.retry_other_plays (a := a) hm hw hout hretry htargets
        rw [htargets.branch, htargets.name] at hplays
        rw [hfrom.on] at htarget
        exact .of_eq (Effect.bind_of_ok (otherTarget_run_some hfound ht htarget)) hplays

end Failing

section Completing
variable {result : StepResult} {state : RunState}
variable (h : e.Seated ctx.registry m p b) (hout : x.outcome = .ok result)
include h hout

/-- After a step that completed the run leaves, goes on, or comes to the end of its branch. -/
theorem proceed_plays (hm : m.Sound) (hw : e.config.tree.WellFormed ctx.registry)
    (hcompletes : result.Completes) (hstate : state = .stepInProgress ∨ state = .processingInput) :
    e.Plays ctx m p b a x
      ((do return ⟨result, ← proceed ctx⟩ : WorkM Memory Outcome).run (attempted m e b a x state)) := by
  obtain ⟨br, t, hfrom⟩ := h.step.builtFrom
  have htemplate := hfrom.found hw
  have hfound := hw.branch_eq hfrom.branch
  have hfound' := hfrom.foundBranch hw
  have hcurrent : ((e.tried b a x).inState state).stepEngine.current? =
      some ⟨b.step, b.stepRun.push a⟩ := rfl
  cases hexit : t.exitPath with
  | some exit =>
    obtain ⟨path, hpath⟩ := hw.exits br hfrom.branch t hfrom.template exit hexit
    have hfinish : Trigger.finish.fire? state = some .finished := by
      rcases hstate with rfl | rfl <;> rfl
    refine .of_eq (Effect.bind_of_ok
      (proceed_run_exit hcurrent htemplate hexit hpath hfinish)) ?_
    exact .intro (.exit hout hcompletes htemplate hexit hpath) rfl
  | none =>
    have hlast : lastOn br.name (m.historyOf e.run.record.id) = some b.step.name := by
      rw [hfrom.on]
      exact h.lastOn_eq hm
    have hnamed : ∀ name, some b.step.name = some name → ∃ t ∈ br.steps, t.name = name := by
      rintro _ ⟨⟩
      exact ⟨t, hfrom.template, hfrom.name⟩
    rcases Branch.following_cases hw hfrom.branch hnamed with ⟨next, hnext, hhas, hnb⟩ | hnext
    · have hadvance : Trigger.advanceStep.fire? state = some .stepInProgress := by
        rcases hstate with rfl | rfl <;> rfl
      refine .of_eq (Effect.bind_of_ok (proceed_run_next hcurrent htemplate hm (by omega) hexit
        h.branch_eq hfrom.on hfound (hlast ▸ hnext) hadvance (h.contains_run rfl)
        (h.hasOrder_next rfl h.position))) ?_
      exact .intro
        (.next hout hcompletes htemplate hexit hfound' hnext hhas (hnb.trans hfrom.on)) rfl
    · have hnext : br.following ctx.registry (some b.step.name) =
          .error (.unrecoverable b.step.branch b.step.name .branchExhausted) := by
        rw [hnext, hfrom.on]
        rfl
      refine .of_eq (Effect.bind_of_error (proceed_run_end hcurrent htemplate hm (by omega) hexit
        h.branch_eq hfrom.on hfound (by rw [← hnext]; exact congrArg _ hlast))) ?_
      have hstopped : ((e.tried b a x).inState state).stopped = (e.tried b a x).inState .error := by
        rcases hstate with rfl | rfl <;> rfl
      exact .intro (.last hout hcompletes htemplate hexit hfound' hnext) hstopped

omit h in
theorem replay_plays {message : Option String} (hreplay : result = .replay message)
    (hinput : b.step.isInput = true) :
    e.Plays ctx m p b a x ((handleResult ctx result).run (attempted m e b a x .processingInput)) := by
  subst hreplay
  have hfire : (fire .replayStep).run (attempted m e b a x .processingInput) =
      (.ok (), attempted m e b a x .requestingUserInput) := fire_run rfl
  have hcurrent : currentStep.run (attempted m e b a x .requestingUserInput) =
      (.ok ⟨b.step, b.stepRun.push a⟩, attempted m e b a x .requestingUserInput) :=
    currentStep_run rfl
  refine .of_eq ((Effect.bind_of_ok hfire).trans ((Effect.bind_of_ok hcurrent).trans
    (Effect.bind_of_ok (placeStep_run_bound _ _ _)))) ?_
  exact .intro (.replay hout hinput) rfl

omit h in
theorem exitQueue_plays {queue : Option String} (hqueue : result = .exitQueue queue)
    {path : ExitPath} (hpath : queueExit ctx queue = .ok path)
    (hstate : state = .stepInProgress ∨ state = .processingInput) :
    e.Plays ctx m p b a x ((handleResult ctx result).run (attempted m e b a x state)) := by
  subst hqueue
  have hfinish : Trigger.finish.fire? state = some .finished := by
    rcases hstate with rfl | rfl <;> rfl
  refine .of_eq ((Effect.bind_of_ok (configured_run_ok hpath)).trans
    (Effect.bind_of_ok (leave_run path hfinish))) ?_
  exact .intro (.queue hout hpath) rfl

end Completing
end Engine.Seated
end CallFlow
