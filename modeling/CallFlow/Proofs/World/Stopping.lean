import CallFlow.Proofs.World.Advancing
import CallFlow.Proofs.World.Raced
import CallFlow.Proofs.World.Retrying

/-! # Runs that are given up

A run is given up where its step failed and neither a retry nor a step of the error branch is left
for it, or where its step completed at the end of the branch without an exit path. Looking for a
place to go on has left no trace: all that is recorded then is the attempt and the end of the run.
-/
namespace CallFlow
open Memory Work

inductive Engine.Stops (ctx : Context) (m : Memory) (e : Engine) (b : BoundStep)
    (x : StepBehavior.Execution) : StopReason → Prop
  /-- The step completed as the last one of its branch, and has no exit path. -/
  | last {result br i t} (outcome : x.outcome = .ok result) (completes : result.Completes)
      (places : e.config.Places b.step br i t) (remains : t.exitPath = none)
      (ends : br.steps.length = i + 1) : Stops ctx m e b x .branchExhausted
  /-- The step failed without being granted a retry, and has no error branch. -/
  | refused {error reason} (outcome : x.outcome = .error error)
      (denied : e.Denied ctx m b error reason) (switches : b.step.switchTarget = none) :
      Stops ctx m e b x reason
  /-- The step failed without being granted a retry, and its error branch has no step left. -/
  | deadEnd {error reason br i} (outcome : x.outcome = .error error)
      (denied : e.Denied ctx m b error reason) (switches : b.step.switchTarget = some br.name)
      (branch : e.config.tree.branch br.name = .ok br)
      (resumes : m.resumeIndex? e.run.record.id b.step.branch br = some i)
      (ends : br.steps[i]? = none) :
      Stops ctx m e b x (.errorBranchExhausted reason br.name .branchExhausted)

theorem Branch.reason_of_exhausted {br : Branch} {registry : Registry} {last : Option String}
    {on name : String} {reason : StopReason}
    (h : br.following registry last = .error (.unrecoverable on name reason)) :
    reason = .branchExhausted := by
  unfold following at h
  split at h
  · cases h
  · split at h
    · cases h
      rfl
    · rename_i t _
      cases hstep : Step.ofTemplate t br.name registry <;> simp [hstep, Except.mapError] at h

namespace Engine
variable {ctx : Context} {m : Memory} {e : Engine} {p : PositionRecord} {b : BoundStep}
variable {a : AttemptRecord} {x : StepBehavior.Execution} {w : Way} {raw : Option String}
variable {error : StepError} {reason reason' : StopReason} {answer : Except EngineError Outcome}

/-- A failure is denied a retry for one reason. -/
theorem Denied.unique (hw : e.config.tree.WellFormed ctx.registry)
    (h : e.Seated ctx.registry m p b) (hd : e.Denied ctx m b error reason)
    (hd' : e.Denied ctx m b error reason') : reason = reason' := by
  -- where the target is known to be a step of the branch, it is not missing from it
  have hfound {step : Step} {br : Branch} (hstep : e.config.HasStep ctx.registry step)
      (hon : step.branch = b.step.branch) (hname : step.name = targetName b.step error)
      (hbranch : e.config.tree.branch b.step.branch = .ok br)
      (hmissing : br.step? (targetName b.step error) = none) : False := by
    obtain ⟨t, hfrom⟩ := hstep.builtFrom_branch hw (hon ▸ hbranch)
    have ht := hfrom.step?_eq hw
    rw [hname, hmissing] at ht
    cases ht
  cases hd with
  | fatal fatal =>
    cases hd' with
    | fatal => rfl
    | offBranch retryable | spent retryable | spentThere retryable =>
      cases fatal.symm.trans retryable
  | offBranch retryable branch missing =>
    cases hd' with
    | fatal fatal => cases fatal.symm.trans retryable
    | offBranch => rfl
    | spent _ self => exact (hfound h.step rfl self.symm branch missing).elim
    | spentThere _ targets =>
      exact (hfound targets.step targets.branch targets.name branch missing).elim
  | spent retryable self =>
    cases hd' with
    | fatal fatal => cases fatal.symm.trans retryable
    | offBranch _ branch missing => exact (hfound h.step rfl self.symm branch missing).elim
    | spent => rfl
    | spentThere _ targets => exact absurd (targets.name.trans self) targets.other
  | spentThere retryable targets =>
    cases hd' with
    | fatal fatal => cases fatal.symm.trans retryable
    | offBranch _ branch missing =>
      exact (hfound targets.step targets.branch targets.name branch missing).elim
    | spent _ self => exact absurd (targets.name.trans self) targets.other
    | spentThere _ targets' =>
      have hsame := targets.step.unique hw targets'.step
        (targets.branch.trans targets'.branch.symm) (targets.name.trans targets'.name.symm)
      rw [hsame]

section Goes
variable (hw : e.config.tree.WellFormed ctx.registry) (h : e.Seated ctx.registry m p b)
variable (hg : e.Goes ctx m b a x w answer)
include hw h hg

/-- An answer that the run was given up closes the run, names its step and has a reason. -/
theorem Goes.stops {branch name : String} (ha : answer = .error (.unrecoverable branch name reason)) :
    w = .close .error ∧ branch = b.step.branch ∧ name = b.step.name ∧ e.Stops ctx m b x reason := by
  cases hg with
  | replay | queue | exit | next | switch | retry | reset | first => cases ha
  | last outcome completes template remains branch follows =>
    cases ha
    refine ⟨rfl, rfl, rfl, ?_⟩
    obtain ⟨br, i, t, hplaces⟩ := h.step.places hw
    cases branch.symm.trans hplaces.branch
    cases template.symm.trans (hplaces.template hw h.step)
    obtain ⟨j, hj, hnone⟩ := Branch.index_of_exhausted follows
    obtain rfl : i + 1 = j := Except.ok.inj ((hplaces.indexAfter_eq hw h.step).symm.trans hj)
    refine .last outcome completes hplaces remains ?_
    obtain ⟨hlt, -⟩ := List.getElem?_eq_some_iff.mp hplaces.index
    have hge := List.getElem?_eq_none_iff.mp hnone
    omega
  | stop outcome denied switches =>
    cases ha
    exact ⟨rfl, rfl, rfl, .refused outcome denied switches⟩
  | deadEnd outcome denied switches branch follows =>
    cases ha
    obtain rfl := Branch.reason_of_exhausted follows
    obtain ⟨j, hj, hnone⟩ := Branch.index_of_exhausted follows
    exact ⟨rfl, rfl, rfl, .deadEnd outcome denied switches branch (indexAfter_eq_ok_iff.mp hj) hnone⟩

/-- Where there is a reason to give the run up, it is given up for that reason. -/
theorem Goes.of_stops (hs : e.Stops ctx m b x reason) : answer = stoppedAnswer b reason := by
  cases hs with
  | last outcome completes places remains ends =>
    have htemplate := places.template hw h.step
    cases hg with
    | replay hout | queue hout =>
      cases hout.symm.trans outcome
      exact completes.elim
    | exit hout _ template leaves =>
      cases template.symm.trans htemplate
      cases leaves.symm.trans remains
    | next hout _ template _ branch follows =>
      cases branch.symm.trans places.branch
      obtain ⟨j, t, hj, ht, -⟩ := Branch.index_of_following follows
      obtain rfl := Except.ok.inj ((places.indexAfter_eq hw h.step).symm.trans hj)
      rw [← ends, List.getElem?_eq_none (Nat.le_refl _)] at ht
      cases ht
    | last => rfl
    | retry hout | reset hout | first hout | switch hout | stop hout | deadEnd hout =>
      cases hout.symm.trans outcome
  | refused outcome denied switches =>
    cases hg with
    | replay hout | queue hout | exit hout | next hout | last hout => cases hout.symm.trans outcome
    | retry hout retryable self budget =>
      cases hout.symm.trans outcome
      exact absurd ((h.grants_self_iff hw self).mpr budget) (denied.not_grants hw h retryable)
    | reset hout retryable targets _ budget | first hout retryable targets _ budget =>
      cases hout.symm.trans outcome
      exact absurd ((targets.grants_iff hw).mpr budget) (denied.not_grants hw h retryable)
    | switch _ _ target | deadEnd _ _ target => cases target.symm.trans switches
    | stop hout denied' =>
      cases hout.symm.trans outcome
      rw [denied.unique hw h denied']
  | deadEnd outcome denied switches branch resumes ends =>
    obtain ⟨br, hbranch, -, hcases⟩ := hg.of_denied hw h outcome denied switches
    cases hbranch.symm.trans branch
    rcases hcases with ⟨step, follows, -⟩ | ⟨on, last, exhausted, cause, follows, -, rfl⟩
    · obtain ⟨j, t, hj, ht, -⟩ := Branch.index_of_following follows
      cases (indexAfter_eq_ok_iff.mp hj).symm.trans resumes
      cases ht.symm.trans ends
    · obtain ⟨-, -, -, hstops⟩ := hg.stops hw h rfl
      cases hstops with
      | last hout => cases hout.symm.trans outcome
      | refused _ _ target => cases target.symm.trans switches
      | deadEnd hout denied' target =>
        cases hout.symm.trans outcome
        rw [denied.unique hw h denied', Option.some.inj (target.symm.trans switches)]

end Goes

theorem Seated.stops (hm : m.Sound) (hw : e.config.tree.WellFormed ctx.registry)
    (h : e.Seated ctx.registry m p b) (hx : e.execution? ctx raw = some x)
    (hs : e.Stops ctx m b x reason) :
    (e.runStep ctx raw m).1.1 = .error (.unrecoverable b.step.branch b.step.name reason) := by
  obtain ⟨r, w, answer, hwent⟩ := h.went hm hw hx (by
    cases hs with
    | last outcome completes =>
      rw [outcome]
      exact not_impossible_of_completes completes
    | refused outcome | deadEnd outcome =>
      rw [outcome]
      exact not_impossible_error)
  rw [hwent.ran, hwent.goes.of_stops hw h hs]
  rfl

/-- What has come of a call that gave the run up. It names the step of the run's latest position
and has a reason. The attempt is recorded on the step run of that position, and all else that
changed is the row of the run, which is in its error state with the session that the step left. -/
def GivesUp (ctx : Context) (m : Memory) (e : Engine) (raw : Option String) (branch name : String)
    (reason : StopReason) (m' : Memory) : Prop :=
  ∃ r p s b x a, m.runs.get? e.run.record.id = some r ∧
    m.latestPosition e.run.record.id = some p ∧ m.stepRuns.get? p.stepRun = some s ∧
    branch = s.branch ∧ name = s.name ∧ e.stepEngine.current? = some b ∧
    e.execution? ctx raw = some x ∧ a.stepRun = p.stepRun ∧
    m.Closes r a x.session .error m' ∧ e.Stops ctx m b x reason

end Engine

namespace World
variable {registry : Registry} {w : World} {slot : Nat} {e : Engine}

/-- An engine in use can always be prepared. -/
theorem Sound.prepare_ok (h : w.Sound registry) (hloaded : w.Loaded)
    (he : w.engine? slot = some e) :
    ∃ e' m', (e.prepare (w.context registry)).run w.store = (.ok e', m') := by
  have hadmitted := h.engines he
  have hw := h.flows hadmitted.flow
  by_cases hs : e.Stale w.store
  · obtain ⟨p, b, hprepare, -⟩ := h.prepare_stale hloaded he hs
    exact ⟨_, _, hprepare⟩
  · obtain ⟨hcurrent, -⟩ := hadmitted.current hs
    obtain ⟨r, hr, -⟩ := Engine.exists_of_not_stale hs
    rcases hcurrent.tracks hr (h.tracks he hs hr) with ⟨hu, -⟩ | ⟨p, s, hu⟩
    · obtain ⟨x, n, e', p, b, hprepare, -⟩ :=
        Engine.prepare_opens (w.context registry) h.store hw hadmitted hs hr hu
      exact ⟨_, _, hprepare⟩
    · have hu : w.store.Underway (w.context registry).registry e.config e.run p s := hu
      obtain ⟨b, hprepare, -⟩ := Engine.prepare_underway h.store hw hcurrent hu
      exact ⟨_, _, hprepare⟩

theorem Sound.givesUp (h : w.Sound registry) (he : w.engine? slot = some e) {raw : Option String}
    {branch name : String} {reason : StopReason} {e' : Engine} {m' : Memory}
    (hrun : e.runStep (w.context registry) raw w.store =
      ((.error (.unrecoverable branch name reason), e'), m')) :
    e.GivesUp (w.context registry) w.store raw branch name reason m' := by
  have hadmitted := h.engines he
  have hw := h.flows hadmitted.flow
  rcases Engine.runStep_played (w.context registry) h.store hw hadmitted raw with
    ⟨hrefused, -⟩ | ⟨p, b, answer, y, n, e₁, p₁, b₁, r, hseated, hplayed, hr, -, hran⟩
  · rw [hrun] at hrefused
    exact absurd trivial hrefused
  · obtain ⟨hturn, -⟩ := hplayed.turn h.store hw hseated
    have hanswer : answer = .error (.unrecoverable branch name reason) := by
      rw [hrun] at hran
      exact (congrArg (·.1.1) hran).symm
    cases hplayed with
    | prompted => cases hanswer
    | @executed x way _ executed goes =>
      obtain ⟨rfl, rfl, rfl, hstops⟩ := goes.stops hw hseated hanswer
      have hwent : e.Went (w.context registry) w.store p b raw x r (.close .error) answer :=
        ⟨hr, goes, hturn, hran⟩
      have hcloses := hwent.closes h.store hseated rfl
      rw [hrun] at hcloses
      obtain ⟨-, hat, -⟩ := hseated.current_run h.store
      exact ⟨r, p, b.stepRun.record, b, x, _, hr, hseated.underway.latest,
        hseated.underway.current, hseated.visits.branch.symm, hseated.visits.name.symm,
        hseated.holds.current, executed, hat.symm, hcloses, hstops⟩

/-- A run of a published flow is given up where it stands and leaves nothing else behind, whatever
the reason. Each of the reasons gives it up, for a fresh engine and for one that was prepared and
not overtaken, and an engine can always be prepared. -/
theorem gives_up_in_place {id : Int} {r : RunRecord} (h : Reachable registry w)
    (hr : w.store.runs.get? id = some r) :
    (∀ slot e, w.engine? slot = some e → e.run.record.id = id →
      (∃ e' m', (e.prepare (w.context registry)).run w.store = (.ok e', m')) ∧
      ∀ raw branch name reason e' m', e.runStep (w.context registry) raw w.store =
          ((.error (.unrecoverable branch name reason), e'), m') →
        e.GivesUp (w.context registry) w.store raw branch name reason m') ∧
    w.AtCurrentStep registry id r fun e m => ∀ raw x b reason,
      e.stepEngine.current? = some b → e.execution? (w.context registry) raw = some x →
        e.Stops (w.context registry) m b x reason →
          (e.runStep (w.context registry) raw m).1.1 =
            .error (.unrecoverable b.step.branch b.step.name reason) := by
  constructor
  · intro slot e he _
    exact ⟨h.sound.prepare_ok h.loaded he, fun raw branch name reason e' m' hrun =>
      h.sound.givesUp he hrun⟩
  · refine h.atCurrentStep hr fun hm hw hseated raw x b reason hb hx hstops => ?_
    cases hb.symm.trans hseated.holds.current
    exact Engine.Seated.stops hm hw hseated hx hstops

end World

def Reception.pressed : World :=
  misdialed.after .builtins [.call 0 (.run (some "home")), .call 0 (.run (some "home"))]

theorem Reception.reachable_pressed : World.Reachable .builtins pressed :=
  grantsUpTo_misdialed.reachable.trans (World.reaches_iff.mpr ⟨_, rfl⟩)

namespace World

/-- The fourth answer that is not a number is one too many. -/
theorem gives_up_in_place_reception : ∃ e e' m', Reception.pressed.engine? 0 = some e ∧
    e.runStep (Reception.pressed.context .builtins) (some "home") Reception.pressed.store =
      ((.error (.unrecoverable "desk" "account"
        (.budgetExhausted 3 "expected at least 1 digits, got 'home'")), e'), m') ∧
    e.GivesUp (Reception.pressed.context .builtins) Reception.pressed.store (some "home") "desk"
      "account" (.budgetExhausted 3 "expected at least 1 digits, got 'home'") m' := by
  obtain ⟨e, p, b, x, error, he, hid, hv, hp, hb, hbranch, hname, hswitches, hx, hout,
      hretryable, hself, hmessage, hbudget, hspent⟩ : ∃ e p b x error,
      Reception.pressed.engine? 0 = some e ∧ e.run.record.id = 1 ∧
      (Reception.pressed.store.runs.get? 1).map (·.version) = some e.run.record.version ∧
      e.position = some p ∧ e.stepEngine.current? = some b ∧ b.step.branch = "desk" ∧
      b.step.name = "account" ∧ b.step.switchTarget = none ∧
      e.execution? (Reception.pressed.context .builtins) (some "home") = some x ∧
      x.outcome = .error error ∧ error.retryable = true ∧ targetName b.step error = b.step.name ∧
      error.message = "expected at least 1 digits, got 'home'" ∧
      (Reception.pressed.context .builtins).budget b.step = 3 ∧ 3 ≤ b.stepRun.attempts.length :=
    ⟨_, _, _, _, _, rfl, rfl, rfl, rfl, rfl, rfl, rfl, rfl, rfl, rfl, rfl, rfl, rfl, rfl, by decide⟩
  obtain ⟨r, hr, hready⟩ := exists_ready he hid hp hv
  obtain ⟨hgives, hat⟩ := gives_up_in_place Reception.reachable_pressed hr
  have hdenied : e.Denied (Reception.pressed.context .builtins) Reception.pressed.store b error
      (.budgetExhausted ((Reception.pressed.context .builtins).budget b.step) error.message) :=
    .spent hretryable hself (hbudget ▸ hspent)
  obtain ⟨-, -, hstopped⟩ := hat.ready 0 e hready
  have hanswer := hstopped _ x b _ hb hx (.refused hout hdenied hswitches)
  rw [hbudget, hmessage, hbranch, hname] at hanswer
  rcases hrun : e.runStep (Reception.pressed.context .builtins) (some "home")
    Reception.pressed.store with ⟨⟨answer, e'⟩, m'⟩
  rw [hrun] at hanswer
  obtain rfl := hanswer
  exact ⟨e, e', m', he, hrun, (hgives 0 e he hid).2 _ _ _ _ _ _ hrun⟩

end World
end CallFlow
