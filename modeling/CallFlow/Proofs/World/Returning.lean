import CallFlow.Proofs.Run.LastVisit
import CallFlow.Proofs.World.Exhaustion
import CallFlow.Proofs.World.Retrying

/-! # Back to the last visit

A retry that goes back to a step goes on with the last visit of the run there. The store finds that
visit by the id of its step run, the history tells it by the order of its positions, and in every
world that can be reached the two agree. So the attempts that a retry is granted for are those of
the visit that the history ends with, and no new step run is recorded as long as there is one.
-/
namespace CallFlow
open Memory Work

namespace Engine
variable {ctx : Context} {m : Memory} {e e' : Engine} {p p' : PositionRecord} {b b' : BoundStep}
variable {c : Change} {n : Int} {raw : Option String} {x : StepBehavior.Execution}
variable {error : StepError} {visit : Option StepRunRecord}

section Seated
variable (hrecalls : m.Recalls e.run.record.id) (h : e.Seated ctx.registry m p b)
include hrecalls h

theorem Seated.findStepRun_eq {branch name : String}
    (hlast : m.LastVisit e.run.record.id branch name visit) :
    m.findStepRun e.run.record.id branch name = visit :=
  (hrecalls branch name).unique (fun _ hp _ hq => h.underway.recorded.order_inj hp hq) hlast

theorem Seated.findStepRun_current : m.findStepRun e.run.record.id b.stepRun.record.branch
    b.stepRun.record.name = some b.stepRun.record :=
  h.findStepRun_eq hrecalls
    (h.underway.recorded.lastVisit_latest h.underway.latest h.underway.current)

/-- A retry goes on with the last visit, also where a step is tried again for itself. -/
theorem Seated.retryVisit?_eq {name : String}
    (hlast : m.LastVisit e.run.record.id b.step.branch name visit) :
    m.retryVisit? e.run.record.id b name = visit := by
  rw [← h.findStepRun_eq hrecalls hlast, retryVisit?]
  split
  case isTrue hself =>
    rw [hself, ← h.visits.branch, ← h.visits.name, h.findStepRun_current hrecalls]
  case isFalse => rfl

end Seated

/-- After a committed call the store finds the last visits as it did before. -/
theorem Turned.recalls {r : RunRecord} (hm : m.Sound)
    (hrec : m.Recorded ctx.registry e.config e.run.record.id)
    (hturn : e.Turn ctx.registry m c n e' p' b') (h : e.Turned ctx m c n e' p' b')
    (hrecalls : m.Recalls e.run.record.id) : (m.post c n r).Recalls e.run.record.id := by
  have hfound := h.findStepRun (r := r) hm hturn.fits fun seated =>
    seated.findStepRun_current hrecalls
  have hafter := hturn.leads.recorded (r := r) hm hturn.fits hrec hturn.entered
  exact hturn.leads.recalls hm hturn.fits hafter hfound hrecalls

/-- A call fails at the step of an engine and may be retried. The run was last at the step to go
back to with the visit, or never. -/
structure FallsBack (ctx : Context) (m : Memory) (e : Engine) (raw : Option String)
    (x : StepBehavior.Execution) (b : BoundStep) (error : StepError)
    (visit : Option StepRunRecord) : Prop where
  current : e.stepEngine.current? = some b
  executed : e.execution? ctx raw = some x
  failed : x.outcome = .error error
  retryable : error.retryable = true
  last : m.LastVisit e.run.record.id b.step.branch (targetName b.step error) visit

def Retried (ctx : Context) (m : Memory) (e : Engine) (raw : Option String) (b : BoundStep)
    (error : StepError) (next : BoundStep) (e' : Engine) (m' : Memory) : Prop :=
  e.runStep ctx raw m =
    ((.ok ⟨.error (retryMessage ctx b.step error) true error.resetStep, .step next⟩, e'), m')

def Affords (ctx : Context) (m : Memory) (e : Engine) (b : BoundStep) (error : StepError)
    (visit : Option StepRunRecord) : Prop :=
  ∃ br t, e.config.tree.branch b.step.branch = .ok br ∧
    br.step? (targetName b.step error) = some t ∧
    visit.elim 0 (fun s => (m.attemptsOf s.id).length) < t.limit ctx.settings.defaultRetryCount

/-- What is granted a retry is what the last visit affords, and the run goes back to that visit. -/
theorem FallsBack.retried (hm : m.Sound) (hw : e.config.tree.WellFormed ctx.registry)
    (hrecalls : m.Recalls e.run.record.id) (h : e.Seated ctx.registry m p b)
    (hf : e.FallsBack ctx m raw x b error visit) :
    ((∃ next e' m', e.Retried ctx m raw b error next e' m') ↔ e.Affords ctx m b error visit) ∧
    ∀ next e' m', e.Retried ctx m raw b error next e' m' → ∃ r a p',
      m.runs.get? e.run.record.id = some r ∧ a.stepRun = b.stepRun.record.id ∧
      next.step.name = targetName b.step error ∧ next.step.branch = b.step.branch ∧
      Arrives ctx.registry m r a x.session
        (if next.step.isInput then .requestingUserInput else .stepInProgress) visit
        (targetName b.step error ≠ b.step.name) e' m' next p' := by
  obtain ⟨r, a, e₁, m₁, hr, ha, hgranted, hdenied⟩ :=
    h.decidesRetry hm hw raw x error p b h.position hf.current hf.executed hf.failed hf.retryable
  obtain ⟨-, hcurrent, -⟩ := h.current_run hm
  have hvisit := h.retryVisit?_eq hrecalls hf.last
  have haffords : e.Grants ctx m b error ↔ e.Affords ctx m b error visit := by
    unfold Grants Affords retryTries
    rw [hvisit]
    cases visit <;> rfl
  rw [hvisit] at hgranted
  -- neither a switch nor the end of the run is answered like a retry
  have hgrants {next e' m'} (hretried : e.Retried ctx m raw b error next e' m') :
      e.Grants ctx m b error := by
    by_contra hnot
    rcases hdenied hnot with ⟨br, u, b', p', -, hran, -⟩ | ⟨reason, hran, -⟩
    · cases hretried.symm.trans hran
    · cases hretried.symm.trans hran
  constructor
  · rw [← haffords]
    constructor
    · rintro ⟨next, e', m', hretried⟩
      exact hgrants hretried
    · intro hgrants
      obtain ⟨b', p', -, -, hran, -⟩ := hgranted hgrants
      exact ⟨b', e₁, m₁, hran⟩
  · intro next e' m' hretried
    obtain ⟨b', p', hname, hbranch, hran, harrives⟩ := hgranted (hgrants hretried)
    cases hretried.symm.trans hran
    exact ⟨r, a, p', hr, ha.trans hcurrent, hname, hbranch, harrives⟩

end Engine

namespace World
variable {registry : Registry} {w : World}

theorem lasting_recalls (count : UInt32) : Lasting count fun m _ r => m.Recalls r.id where
  sameLeg hm hs h := h.sameLeg hm hs
  fresh {m config r} hu := by
    intro branch name
    have hnone : m.findStepRun r.id branch name = none := by
      rw [findStepRun_eq, hu.visitsOf]
      rfl
    rw [hnone]
    intro p s hp
    have hlisted := hp.listed
    rw [hu.positions] at hlisted
    cases hlisted
  turned {ctx m e e' x n p b r} version hm hw hcount hr hrec hturn hturned h := by
    have hid : (e'.stored version m.clock).id = e.run.record.id := hturn.same.id
    rw [(hm.runs hr).1] at h
    rw [hid]
    exact hturned.recalls hm hrec hturn h

theorem Reachable.recalls (h : Reachable registry w) (run : Int) : w.store.Recalls run := by
  cases hr : w.store.runs.get? run with
  | some r =>
    obtain ⟨config, hconfig, -⟩ := h.sound.runs hr
    have hrecalls := h.grantsUpTo.holds (lasting_recalls mostRetries) hr hconfig
    rwa [(h.sound.store.runs hr).1] at hrecalls
  | none =>
    intro branch name
    cases hfound : w.store.findStepRun run branch name with
    | none => exact h.sound.store.lastVisit_none hfound
    | some s =>
      obtain ⟨hget, hrun, -⟩ := h.sound.store.findStepRun hfound
      obtain ⟨-, -, r, hstored⟩ := h.sound.store.stepRuns hget
      rw [hrun, hr] at hstored
      cases hstored

theorem Sound.order_inj (h : w.Sound registry) (run : Int) : ∀ p ∈ w.store.positionsOf run,
    ∀ q ∈ w.store.positionsOf run, p.order = q.order → p = q := by
  intro p hp q hq ho
  obtain ⟨s, hget, rfl, -⟩ := h.store.joined hp
  obtain ⟨-, -, r, hr⟩ := h.store.stepRuns hget
  obtain ⟨config, -, htracks⟩ := h.runs hr
  exact (htracks.recorded h.store hr).order_inj hp hq ho

/-- The store finds the last visit of a run to a step, and none exactly if the run was never there.
A retry is granted exactly if that visit has had fewer attempts than the step has retries. -/
theorem found_visit_is_last (h : Reachable registry w) :
    (∀ run branch name visit, w.store.findStepRun run branch name = visit ↔
      w.store.LastVisit run branch name visit) ∧
    ∀ {id slot e raw x b error visit}, w.Ready id slot e →
      e.FallsBack (w.context registry) w.store raw x b error visit →
      ((∃ next e' m', e.Retried (w.context registry) w.store raw b error next e' m') ↔
        e.Affords (w.context registry) w.store b error visit) ∧
      ∀ next e' m', e.Retried (w.context registry) w.store raw b error next e' m' → ∃ r a p',
        w.store.runs.get? id = some r ∧ a.stepRun = b.stepRun.record.id ∧
        next.step.name = targetName b.step error ∧ next.step.branch = b.step.branch ∧
        Engine.Arrives registry w.store r a x.session
          (if next.step.isInput then .requestingUserInput else .stepInProgress) visit
          (targetName b.step error ≠ b.step.name) e' m' next p' := by
  constructor
  · intro run branch name visit
    have hfound := h.recalls run branch name
    exact ⟨fun heq => heq ▸ hfound, hfound.unique (h.sound.order_inj run)⟩
  · intro id slot e raw x b error visit hready hfalls
    obtain ⟨hwell, p, hseated⟩ := h.sound.ready_at hready hfalls.current
    obtain rfl := hready.run
    exact hfalls.retried h.sound.store hwell (h.recalls _) hseated

end World

/-! ## A flow that goes back -/

namespace Teller

def account : StepTemplate where
  name := "account"
  stepType := Question.typeName
  arguments := (Table.empty.insert "input_type" (.str "digits")).insert "prompt" (.str "Account?")
  actions := []
  exitPath := none
  resetTarget := none
  switchTarget := none
  retryCount := some 2

def pin : StepTemplate where
  name := "pin"
  stepType := Question.typeName
  arguments := (Table.empty.insert "input_type" (.str "digits")).insert "prompt" (.str "PIN?")
  actions := []
  exitPath := some ⟨"hangup", .empty⟩
  resetTarget := some "account"
  switchTarget := none
  retryCount := none

def counter : Branch := ⟨"counter", [account, pin], true⟩

def flow : FlowConfig := ⟨"teller", ⟨[counter]⟩⟩

def asked : World := (World.deployed flow counter 1).after .builtins
  [.call 0 .prepare, .call 0 (.run none), .call 0 (.run (some "42")), .call 0 (.run none)]

def returned : World := asked.after .builtins [.call 0 (.run (some "home")), .call 0 (.run none),
  .call 0 (.run (some "42")), .call 0 (.run none)]

theorem reachable_asked : World.Reachable .builtins asked :=
  (World.grantsUpTo_deployed rfl rfl 1).reachable.trans (World.reaches_iff.mpr ⟨_, rfl⟩)

theorem reachable_returned : World.Reachable .builtins returned :=
  reachable_asked.trans (World.reaches_iff.mpr ⟨_, rfl⟩)

end Teller

namespace World

/-- After a wrong PIN the caller gives the account again, in the visit from before. After the next
one it is over, because two attempts were made in that visit. -/
theorem found_visit_is_last_teller : ∃ (e f : Engine) (b c next : BoundStep)
    (x : StepBehavior.Execution) (error failure : StepError) (s : StepRunRecord) (e' : Engine)
    (m' : Memory) (r : RunRecord) (a : AttemptRecord) (p' : PositionRecord),
    Teller.asked.engine? 0 = some e ∧ e.stepEngine.current? = some b ∧
    Teller.asked.store.LastVisit 1 "counter" "account" (some s) ∧
    e.Retried (Teller.asked.context .builtins) Teller.asked.store (some "home") b error next e'
      m' ∧ next.step.name = "account" ∧
    Engine.Arrives .builtins Teller.asked.store r a x.session
      (if next.step.isInput then .requestingUserInput else .stepInProgress) (some s)
      (targetName b.step error ≠ b.step.name) e' m' next p' ∧
    Teller.returned.engine? 0 = some f ∧ f.stepEngine.current? = some c ∧
    Teller.returned.store.LastVisit 1 "counter" "account" (some s) ∧
    ¬ ∃ next f' m'', f.Retried (Teller.returned.context .builtins) Teller.returned.store
      (some "home") c failure next f' m'' := by
  obtain ⟨e, p, b, x, s, error, he, hid, hv, hp, hb, hfound, hx, hout, hretryable, hbranch,
      htarget, haffords⟩ : ∃ e p b x s error,
      Teller.asked.engine? 0 = some e ∧ e.run.record.id = 1 ∧
      (Teller.asked.store.runs.get? 1).map (·.version) = some e.run.record.version ∧
      e.position = some p ∧ e.stepEngine.current? = some b ∧
      Teller.asked.store.findStepRun 1 "counter" "account" = some s ∧
      e.execution? (Teller.asked.context .builtins) (some "home") = some x ∧
      x.outcome = .error error ∧ error.retryable = true ∧ b.step.branch = "counter" ∧
      targetName b.step error = "account" ∧
      e.Affords (Teller.asked.context .builtins) Teller.asked.store b error (some s) :=
    ⟨_, _, _, _, _, _, rfl, rfl, rfl, rfl, rfl, rfl, rfl, rfl, rfl, rfl, rfl, Teller.counter,
      Teller.account, rfl, rfl, by decide⟩
  obtain ⟨f, q, c, y, failure, hf, hfid, hfv, hq, hc, hsame, hy, hyout, hyretryable, hcbranch,
      hctarget, hspent⟩ : ∃ f q c y failure,
      Teller.returned.engine? 0 = some f ∧ f.run.record.id = 1 ∧
      (Teller.returned.store.runs.get? 1).map (·.version) = some f.run.record.version ∧
      f.position = some q ∧ f.stepEngine.current? = some c ∧
      Teller.returned.store.findStepRun 1 "counter" "account" =
        Teller.asked.store.findStepRun 1 "counter" "account" ∧
      f.execution? (Teller.returned.context .builtins) (some "home") = some y ∧
      y.outcome = .error failure ∧ failure.retryable = true ∧ c.step.branch = "counter" ∧
      targetName c.step failure = "account" ∧
      ¬ f.Affords (Teller.returned.context .builtins) Teller.returned.store c failure
        (Teller.returned.store.findStepRun 1 "counter" "account") := by
    refine ⟨_, _, _, _, _, rfl, rfl, rfl, rfl, rfl, by decide +kernel, rfl, rfl, rfl, rfl, rfl, ?_⟩
    rintro ⟨br, t, hbr, ht, hlt⟩
    obtain rfl : Teller.counter = br := Except.ok.inj hbr
    obtain rfl : Teller.account = t := Option.some.inj ht
    exact absurd hlt (by decide +kernel)
  rw [hsame, hfound] at hspent
  obtain ⟨-, -, hready⟩ := exists_ready he hid hp hv
  obtain ⟨-, -, hready'⟩ := exists_ready hf hfid hq hfv
  obtain ⟨hlast, hretries⟩ := found_visit_is_last Teller.reachable_asked
  obtain ⟨hlast', hretries'⟩ := found_visit_is_last Teller.reachable_returned
  have hvisit := (hlast _ _ _ _).mp hfound
  have hvisit' := (hlast' _ _ _ _).mp (hsame.trans hfound)
  have hfalls : e.FallsBack (Teller.asked.context .builtins) Teller.asked.store (some "home") x b
      error (some s) :=
    ⟨hb, hx, hout, hretryable, by rw [hid, hbranch, htarget]; exact hvisit⟩
  have hfalls' : f.FallsBack (Teller.returned.context .builtins) Teller.returned.store
      (some "home") y c failure (some s) :=
    ⟨hc, hy, hyout, hyretryable, by rw [hfid, hcbranch, hctarget]; exact hvisit'⟩
  obtain ⟨next, e', m', hretried⟩ := (hretries hready hfalls).1.mpr haffords
  obtain ⟨r', a, p', -, -, hname, -, harrives⟩ :=
    (hretries hready hfalls).2 next e' m' hretried
  exact ⟨e, f, b, c, next, x, error, failure, s, e', m', r', a, p', he, hb, hvisit, hretried,
    hname.trans htarget, harrives, hf, hc, hvisit', mt (hretries' hready' hfalls').1.mp hspent⟩

end World
end CallFlow
