import CallFlow.Proofs.World.Lingering

/-! # Retries

A failure that may be retried goes back to the step that it names, or to the one that the failing
step names, or to the failing step itself. The retry is granted if that step is on the branch and
its last visit has had fewer attempts than the step has retries. The attempt that just failed does
not count, so a step that keeps failing for itself is tried again as often as it has retries.
-/
namespace CallFlow
open Memory Work

namespace Memory
variable (m : Memory) (run : Int) (b : BoundStep) (name : String)

def retryVisit? : Option StepRunRecord :=
  if name = b.step.name then some b.stepRun.record else m.findStepRun run b.step.branch name

def retryTries : Nat :=
  ((m.retryVisit? run b name).map fun s => (m.attemptsOf s.id).length).getD 0

end Memory

theorem Context.budget_eq_limit {ctx : Context} {t : StepTemplate} {branch : String} {step : Step}
    (h : step.Built ctx.registry t branch) :
    ctx.budget step = t.limit ctx.settings.defaultRetryCount := by
  rw [budget, h.retryCount, StepTemplate.limit]

namespace Engine
variable {ctx : Context} {m : Memory} {e : Engine} {p : PositionRecord} {b : BoundStep}
variable {error : StepError} {reason : StopReason} {step target : Step} {a : AttemptRecord}
variable {x : StepBehavior.Execution} {w : Way} {answer : Except EngineError Outcome}

/-- A retry is granted: the step to go back to is on the branch, and its visit has had fewer
attempts than the step has retries. -/
def Grants (ctx : Context) (m : Memory) (e : Engine) (b : BoundStep) (error : StepError) : Prop :=
  ∃ br t, e.config.tree.branch b.step.branch = .ok br ∧
    br.step? (targetName b.step error) = some t ∧
    m.retryTries e.run.record.id b (targetName b.step error) <
      t.limit ctx.settings.defaultRetryCount

section Grants
variable (hw : e.config.tree.WellFormed ctx.registry)
include hw

theorem grants_iff (hstep : e.config.HasStep ctx.registry step)
    (hbranch : step.branch = b.step.branch) (hname : step.name = targetName b.step error) :
    e.Grants ctx m b error ↔
      m.retryTries e.run.record.id b (targetName b.step error) < ctx.budget step := by
  obtain ⟨br, t, hfrom⟩ := hstep.builtFrom
  have hfound := hfrom.foundBranch hw
  have hstep? : br.step? (targetName b.step error) = some t := by
    rw [← hname]
    exact hfrom.step?_eq hw
  rw [Context.budget_eq_limit hfrom.built]
  constructor
  · rintro ⟨br', t', hbr', ht', hlt⟩
    obtain rfl : br = br' := Except.ok.inj (hfound.symm.trans (hbranch ▸ hbr'))
    obtain rfl : t = t' := Option.some.inj (hstep?.symm.trans ht')
    exact hlt
  · intro hlt
    exact ⟨br, t, hbranch ▸ hfound, hstep?, hlt⟩

theorem Seated.budget_eq_limit {t : StepTemplate} (h : e.Seated ctx.registry m p b)
    (ht : e.config.tree.step b.step.branch b.step.name = .ok t) :
    ctx.budget b.step = t.limit ctx.settings.defaultRetryCount := by
  exact Context.budget_eq_limit (h.step.built hw ht)

/-- A step may be tried again for itself while its attempts are within its budget. -/
theorem Seated.grants_self_iff (h : e.Seated ctx.registry m p b)
    (hself : targetName b.step error = b.step.name) :
    e.Grants ctx m b error ↔ b.stepRun.attempts.length < ctx.budget b.step := by
  rw [grants_iff hw h.step rfl hself.symm, hself]
  simp only [retryTries, retryVisit?, if_true, Option.map_some, Option.getD_some, h.attempts]

omit hw in
theorem Targets.retryVisit?_eq (ht : e.Targets ctx b error target) (run : Int) :
    m.retryVisit? run b (targetName b.step error) =
      m.findStepRun run target.branch target.name := by
  rw [← ht.name, retryVisit?, if_neg ht.other, ht.branch]

/-- Another step may be gone back to while its last visit is within its budget. -/
theorem Targets.grants_iff (ht : e.Targets ctx b error target) :
    e.Grants ctx m b error ↔
      m.tries e.run.record.id target.branch target.name < ctx.budget target := by
  have htries : m.retryTries e.run.record.id b (targetName b.step error) =
      m.tries e.run.record.id target.branch target.name := by
    rw [retryTries, ht.retryVisit?_eq, tries]
    cases m.findStepRun e.run.record.id target.branch target.name <;> rfl
  rw [Engine.grants_iff hw ht.step ht.branch ht.name, htries]

theorem Denied.not_grants (h : e.Seated ctx.registry m p b)
    (hd : e.Denied ctx m b error reason) (hretryable : error.retryable = true) :
    ¬ e.Grants ctx m b error := by
  cases hd with
  | fatal fatal =>
    rw [hretryable] at fatal
    cases fatal
  | offBranch _ branch missing =>
    rintro ⟨br, t, hbr, ht, -⟩
    cases branch.symm.trans hbr
    cases missing.symm.trans ht
  | spent _ self budget =>
    rw [h.grants_self_iff hw self]
    omega
  | spentThere _ targets budget =>
    rw [targets.grants_iff hw]
    omega

end Grants

inductive Retries (ctx : Context) (m : Memory) (e : Engine) (b : BoundStep) (error : StepError) :
    Way → Prop
  | self (self : targetName b.step error = b.step.name) :
      Retries ctx m e b error (.again (retried b.step))
  | back {target : Step} {s} (targets : e.Targets ctx b error target)
      (found : m.findStepRun e.run.record.id target.branch target.name = some s) :
      Retries ctx m e b error (.back target s)
  | first {target : Step} (targets : e.Targets ctx b error target)
      (found : m.findStepRun e.run.record.id target.branch target.name = none) :
      Retries ctx m e b error (.enter target (retried target) false)

inductive GivesWay (ctx : Context) (m : Memory) (e : Engine) (b : BoundStep) :
    Way → Except EngineError Outcome → Prop
  | switch {br} {step : Step} (switches : b.step.switchTarget = some br.name)
      (branch : e.config.tree.branch br.name = .ok br)
      (follows : br.following ctx.registry (lastBefore b.step br (m.historyOf e.run.record.id)) =
        .ok step) (same : step.branch = br.name) :
      GivesWay ctx m e b (.enter step .stepInProgress true)
        (.ok ⟨.success none, .step (e.visiting step (m.nextId + 1) m.clock)⟩)
  | stop (switches : b.step.switchTarget = none) (reason : StopReason) :
      GivesWay ctx m e b (.close .error) (stoppedAnswer b reason)
  | deadEnd {br on name exhausted} (switches : b.step.switchTarget = some br.name)
      (branch : e.config.tree.branch br.name = .ok br)
      (follows : br.following ctx.registry (lastBefore b.step br (m.historyOf e.run.record.id)) =
        .error (.unrecoverable on name exhausted)) (reason : StopReason) :
      GivesWay ctx m e b (.close .error) (stoppedAnswer b reason)

/-- A failure is retried exactly if it may be and the retry is granted. -/
theorem Goes.of_error (hw : e.config.tree.WellFormed ctx.registry) (h : e.Seated ctx.registry m p b)
    (hg : e.Goes ctx m b a x w answer) (hout : x.outcome = .error error) :
    (error.retryable = true ∧ e.Grants ctx m b error ∧ e.Retries ctx m b error w ∧
      answer = retriedAnswer ctx b error (w.step m e b a)) ∨
    ¬ (error.retryable = true ∧ e.Grants ctx m b error) ∧ e.GivesWay ctx m b w answer := by
  have hdenies {reason : StopReason} (denied : e.Denied ctx m b error reason) :
      ¬ (error.retryable = true ∧ e.Grants ctx m b error) := by
    rintro ⟨hretryable, hgrants⟩
    exact denied.not_grants hw h hretryable hgrants
  cases hg with
  | replay outcome | queue outcome | exit outcome | next outcome | last outcome =>
    cases outcome.symm.trans hout
  | retry outcome retryable self budget =>
    cases outcome.symm.trans hout
    exact .inl ⟨retryable, (h.grants_self_iff hw self).mpr budget, .self self, rfl⟩
  | reset outcome retryable targets found budget =>
    cases outcome.symm.trans hout
    exact .inl ⟨retryable, (targets.grants_iff hw).mpr budget, .back targets found, rfl⟩
  | first outcome retryable targets found budget =>
    cases outcome.symm.trans hout
    exact .inl ⟨retryable, (targets.grants_iff hw).mpr budget, .first targets found, rfl⟩
  | switch outcome denied switches branch follows _ same =>
    cases outcome.symm.trans hout
    exact .inr ⟨hdenies denied, .switch switches branch follows same⟩
  | stop outcome denied switches =>
    cases outcome.symm.trans hout
    exact .inr ⟨hdenies denied, .stop switches _⟩
  | deadEnd outcome denied switches branch follows =>
    cases outcome.symm.trans hout
    exact .inr ⟨hdenies denied, .deadEnd switches branch follows _⟩

/-- Whenever the current step fails and may be retried, the step to go back to is next with the
visit that it had, or the run leaves the branch or is given up. -/
def DecidesRetry (ctx : Context) (m : Memory) (e : Engine) : Prop :=
  ∀ raw x error p b, e.position = some p → e.stepEngine.current? = some b →
    e.execution? ctx raw = some x → x.outcome = .error error → error.retryable = true →
    ∃ r a e' m', m.runs.get? e.run.record.id = some r ∧ a.stepRun = p.stepRun ∧
      (e.Grants ctx m b error → ∃ b' p',
        b'.step.name = targetName b.step error ∧ b'.step.branch = b.step.branch ∧
        e.runStep ctx raw m = ((.ok ⟨.error (retryMessage ctx b.step error) true error.resetStep,
          .step b'⟩, e'), m') ∧
        Arrives ctx.registry m r a x.session
          (if b'.step.isInput then .requestingUserInput else .stepInProgress)
          (m.retryVisit? e.run.record.id b (targetName b.step error))
          (targetName b.step error ≠ b.step.name) e' m' b' p') ∧
      (¬ e.Grants ctx m b error →
        (∃ br t b' p', b.step.switchTarget = some br.name ∧
          e.runStep ctx raw m = ((.ok ⟨.success none, .step b'⟩, e'), m') ∧
          Resumed ctx.registry m e.run.record.id p br t e' m' b' p') ∨
        ∃ reason,
          e.runStep ctx raw m =
            ((.error (.unrecoverable b.step.branch b.step.name reason), e'), m') ∧
          m.Closes r a x.session .error m')

theorem Seated.decidesRetry (hm : m.Sound) (hw : e.config.tree.WellFormed ctx.registry)
    (h : e.Seated ctx.registry m p b) : e.DecidesRetry ctx m := by
  intro raw x error p' b' hp hb hx hout hretryable
  obtain rfl : p' = p := Option.some.inj (hp.symm.trans h.position)
  obtain rfl : b' = b := Option.some.inj (hb.symm.trans h.holds.current)
  obtain ⟨r, w, answer, hwent⟩ := h.went hm hw hx (by rw [hout]; exact not_impossible_error)
  obtain ⟨-, hat, -⟩ := h.current_run hm
  refine ⟨r, b'.newAttempt raw x m.nextId m.clock, (e.runStep ctx raw m).1.2,
    (e.runStep ctx raw m).2, hwent.stored, hat.symm, ?_⟩
  have hran := hwent.answered
  rcases hwent.goes.of_error hw h hout with
    ⟨-, hgrants, hretries, rfl⟩ | ⟨hdenied, hgives⟩
  · refine ⟨fun _ => ?_, fun hnot => absurd hgrants hnot⟩
    cases hretries with
    | self self =>
      let next : BoundStep := ⟨b'.step, b'.stepRun.push (b'.newAttempt raw x m.nextId m.clock)⟩
      rw [retryVisit?, if_pos self, decide_eq_false (not_not_intro self)]
      exact ⟨next, p', self.symm, rfl, hran, hwent.arrives hm h rfl⟩
    | back targets found | first targets found =>
      rw [targets.retryVisit?_eq, found, decide_eq_true (targets.name ▸ targets.other)]
      exact ⟨_, _, targets.name, targets.branch, hran, hwent.arrives hm h rfl⟩
  · refine ⟨fun hgrants => absurd ⟨hretryable, hgrants⟩ hdenied, fun _ => ?_⟩
    cases hgives with
    | switch switches branch follows same =>
      obtain ⟨j, t, -, -, hbuilt⟩ := Branch.index_of_following follows
      exact .inl ⟨_, t, _, _, switches, hran, hwent.resumed hm h rfl same hbuilt⟩
    | stop | deadEnd => exact .inr ⟨_, hran, hwent.closes hm h rfl⟩

section Trips
variable {raw : Option String} (hm : m.Sound) (hw : e.config.tree.WellFormed ctx.registry)
variable (h : e.Seated ctx.registry m p b) (ht : e.Trips ctx raw b error)
include hm hw h ht

/-- The caller is asked to try again exactly if the attempts before are fewer than the retries of
the step. -/
theorem Trips.retried_iff {t : StepTemplate}
    (htemplate : e.config.tree.step b.step.branch b.step.name = .ok t) :
    (∃ next e' m', e.runStep ctx raw m =
        ((.ok ⟨.error (retryMessage ctx b.step error) true error.resetStep, next⟩, e'), m')) ↔
      (m.attemptsOf b.stepRun.record.id).length < t.limit ctx.settings.defaultRetryCount := by
  obtain ⟨x, hx, hout⟩ := ht.fails
  obtain ⟨r, a, e', m', -, -, hgranted, hdenied⟩ :=
    h.decidesRetry hm hw raw x error p b h.position ht.current hx hout ht.retryable
  rw [← h.budget_eq_limit hw htemplate, ← h.attempts, ← h.grants_self_iff hw ht.self]
  constructor
  · rintro ⟨next, e₁, m₁, hrun⟩
    -- neither a switch nor the end of the run is answered like a retry
    by_contra hnot
    rcases hdenied hnot with ⟨br, u, b', p', -, hran, -⟩ | ⟨reason, hran, -⟩
    · cases hrun.symm.trans hran
    · cases hrun.symm.trans hran
  · intro hgrants
    obtain ⟨b', p', -, -, hran, -⟩ := hgranted hgrants
    exact ⟨_, _, _, hran⟩

end Trips
end Engine

namespace World
variable {registry : Registry} {w : World}

/-- A failure that may be retried is granted a retry exactly if the step to go back to is on the
branch and its visit has had fewer attempts than the step has retries. A step that fails for itself
from its first attempt on is tried again as often. -/
theorem retry_decided_by_attempts {id : Int} {r : RunRecord} (h : Reachable registry w)
    (hr : w.store.runs.get? id = some r) :
    w.AtCurrentStep registry id r (fun e m => e.DecidesRetry (w.context registry) m) ∧
    ∀ {stepRun s n w' slot e raw b error t}, w.store.stepRuns.get? stepRun = some s → s.run = id →
      w.store.attemptsOf stepRun = [] → Lingers registry id stepRun w n 0 w' →
      w'.Ready id slot e → e.Trips (w'.context registry) raw b error →
      b.stepRun.record.id = stepRun → e.config.tree.step b.step.branch b.step.name = .ok t →
      ((∃ next e' m', e.runStep (w'.context registry) raw w'.store =
          ((.ok ⟨.error (retryMessage (w'.context registry) b.step error) true error.resetStep,
            next⟩, e'), m')) ↔ n < t.limit w.settings.defaultRetryCount) ∧
        ((e.runStep (w'.context registry) raw w'.store).2.attemptsOf stepRun).length = n + 1 := by
  refine ⟨h.atCurrentStep hr fun hm hw hseated => hseated.decidesRetry hm hw, ?_⟩
  intro stepRun s n w' slot e raw b error t hs hrun hnone hlingers hready htrips hvisit ht
  obtain ⟨hsettings, -, hlength⟩ := hlingers.attempts h.sound hs hrun hnone
  have hsound := hlingers.reaches.sound h.sound
  obtain ⟨hwell, p, hseated⟩ := hsound.ready_at hready htrips.current
  subst hvisit
  constructor
  · rw [htrips.retried_iff hsound.store hwell hseated ht, hlength]
    show n < t.limit w'.settings.defaultRetryCount ↔ _
    rw [hsettings]
  · obtain ⟨x, hx, hout⟩ := htrips.fails
    obtain ⟨r', way, answer, hwent⟩ := hseated.went hsound.store hwell hx
      (by rw [hout]; exact Engine.not_impossible_error)
    rw [hwent.attemptsOf_length hsound.store hseated, hlength]

/-- The first wrong answer is the first attempt on the question. The caller is asked again for it,
and for the second one as well. -/
theorem retry_decided_by_attempts_reception : ∃ e s r a e' m' b' p' f next f' m'',
    Reception.asked.engine? 0 = some e ∧ Reception.asked.store.attemptsOf 5 = [] ∧
    e.runStep (Reception.asked.context .builtins) (some "home") Reception.asked.store =
      ((.ok ⟨.error "expected at least 1 digits, got 'home'" true none, .step b'⟩, e'), m') ∧
    Engine.Arrives .builtins Reception.asked.store r a .empty
      (if b'.step.isInput then .requestingUserInput else .stepInProgress) (some s) false e' m' b'
      p' ∧
    Reception.misdialed.engine? 0 = some f ∧
    f.runStep (Reception.misdialed.context .builtins) (some "home") Reception.misdialed.store =
      ((.ok ⟨.error "expected at least 1 digits, got 'home'" true none, next⟩, f'), m'') ∧
    (m''.attemptsOf 5).length = 2 := by
  obtain ⟨e, p, b, x, s, error, he, hid, hv, hp, hb, hs, hrun, hvisit, hnone, hx, hout,
      hretryable, hself, hsession, hmessage, hreset, hkept, hgrants⟩ : ∃ e p b x s error,
      Reception.asked.engine? 0 = some e ∧ e.run.record.id = 1 ∧
      (Reception.asked.store.runs.get? 1).map (·.version) = some e.run.record.version ∧
      e.position = some p ∧ e.stepEngine.current? = some b ∧
      Reception.asked.store.stepRuns.get? 5 = some s ∧ s.run = 1 ∧ b.stepRun.record.id = 5 ∧
      Reception.asked.store.attemptsOf 5 = [] ∧
      e.execution? (Reception.asked.context .builtins) (some "home") = some x ∧
      x.outcome = .error error ∧ error.retryable = true ∧ targetName b.step error = b.step.name ∧
      x.session = .empty ∧ retryMessage (Reception.asked.context .builtins) b.step error =
        "expected at least 1 digits, got 'home'" ∧ error.resetStep = none ∧
      Reception.asked.store.retryVisit? e.run.record.id b (targetName b.step error) = some s ∧
      e.Grants (Reception.asked.context .builtins) Reception.asked.store b error :=
    ⟨_, _, _, _, _, _, rfl, rfl, rfl, rfl, rfl, rfl, rfl, rfl, rfl, rfl, rfl, rfl, rfl, rfl, rfl,
      rfl, rfl, Reception.desk, Reception.account, rfl, rfl, by decide⟩
  obtain ⟨f, q, c, y, again, hf, hfid, hfv, hq, hc, hcvisit, htemplate, hy, hyout, hyretryable,
      hyself, hymessage, hyreset⟩ : ∃ f q c y again,
      Reception.misdialed.engine? 0 = some f ∧ f.run.record.id = 1 ∧
      (Reception.misdialed.store.runs.get? 1).map (·.version) = some f.run.record.version ∧
      f.position = some q ∧ f.stepEngine.current? = some c ∧ c.stepRun.record.id = 5 ∧
      f.config.tree.step c.step.branch c.step.name = .ok Reception.account ∧
      f.execution? (Reception.misdialed.context .builtins) (some "home") = some y ∧
      y.outcome = .error again ∧ again.retryable = true ∧
      targetName c.step again = c.step.name ∧
      retryMessage (Reception.misdialed.context .builtins) c.step again =
        "expected at least 1 digits, got 'home'" ∧ again.resetStep = none :=
    ⟨_, _, _, _, _, rfl, rfl, rfl, rfl, rfl, rfl, rfl, rfl, rfl, rfl, rfl, rfl, rfl⟩
  obtain ⟨r, hr, hready⟩ := exists_ready he hid hp hv
  obtain ⟨-, -, hready'⟩ := exists_ready hf hfid hq hfv
  have hreachable : Reachable .builtins Reception.asked := Reception.reachable_greeted.step _
  obtain ⟨hat, hrow⟩ := retry_decided_by_attempts hreachable hr
  obtain ⟨-, -, hdecides⟩ := hat.ready 0 e hready
  obtain ⟨r, a, e', m', -, -, hgranted, -⟩ := hdecides _ x error p b hp hb hx hout hretryable
  obtain ⟨b', p', -, -, hran, harrives⟩ := hgranted hgrants
  rw [hmessage, hreset] at hran
  rw [hkept, hsession, decide_eq_false (not_not_intro hself)] at harrives
  have hlingers : Lingers .builtins 1 5 Reception.asked 1 0 Reception.misdialed :=
    .wrong .start hready ⟨hb, ⟨x, hx, hout⟩, hretryable, hself⟩ hvisit
  obtain ⟨hasked, hlength⟩ := hrow hs hrun hnone hlingers hready'
    ⟨hc, ⟨y, hy, hyout⟩, hyretryable, hyself⟩ hcvisit htemplate
  obtain ⟨next, f', m'', hagain⟩ := hasked.mpr (by decide)
  rw [hagain] at hlength
  rw [hymessage, hyreset] at hagain
  exact ⟨e, s, r, a, e', m', b', p', f, next, f', m'', he, hnone, hran, harrives, hf, hagain,
    hlength⟩

end World
end CallFlow
