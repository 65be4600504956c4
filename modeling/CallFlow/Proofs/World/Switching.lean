import CallFlow.Proofs.World.Running

/-! # Switches after an error

When a step fails and no retry is granted, the run goes on at the error branch of the step, if it
has one. Where it goes on is read off the run's history: another branch that starts over is taken
up at its first step, any other branch after the step that was visited last on it. A branch that
has no step left is not switched to, and the run is given up where it stands.
-/
namespace CallFlow
open Memory Work

def Memory.resumeIndex? (m : Memory) (run : Int) (left : String) (br : Branch) : Option Nat :=
  if br.name ≠ left ∧ br.resetOnSwitch = true then some 0
  else match ((m.historyOf run).filter (·.stepRun.branch = br.name)).getLast? with
    | none => some 0
    | some entry => (br.steps.findIdx? (·.name = entry.stepRun.name)).map (· + 1)

theorem Work.lastOn_eq_getLast? (branch : String) (history : List HistoryEntry) :
    lastOn branch history =
      ((history.filter (·.stepRun.branch = branch)).getLast?).map (·.stepRun.name) := by
  rw [lastOn, ← List.head?_filter, List.filter_reverse, List.head?_reverse]

theorem Work.indexAfter_eq_ok_iff {m : Memory} {run : Int} {step : Step} {br : Branch} {j : Nat} :
    indexAfter br (lastBefore step br (m.historyOf run)) = .ok j ↔
      m.resumeIndex? run step.branch br = some j := by
  unfold lastBefore Memory.resumeIndex?
  by_cases hover : br.name ≠ step.branch ∧ br.resetOnSwitch = true
  · simp [hover, indexAfter]
  · have hkeeps : (decide (br.name ≠ step.branch) && br.resetOnSwitch) = false := by
      simpa using hover
    rw [if_neg hover, hkeeps, lastOn_eq_getLast?]
    cases ((m.historyOf run).filter (·.stepRun.branch = br.name)).getLast? with
    | none => simp [indexAfter]
    | some entry =>
      simp only [Bool.false_eq_true, if_false, Option.map_some, indexAfter, Branch.position?]
      cases br.steps.findIdx? (·.name = entry.stepRun.name) <;> simp

namespace Branch
variable {br : Branch} {registry : Registry} {last : Option String}

theorem index_of_following {step : Step} (h : br.following registry last = .ok step) :
    ∃ j t, indexAfter br last = .ok j ∧ br.steps[j]? = some t ∧
      step.Built registry t br.name := by
  unfold following at h
  split at h
  · cases h
  · rename_i j hj
    split at h
    · cases h
    · rename_i t ht
      exact ⟨j, t, hj, ht, Step.ofTemplate_eq_ok.mp (mapError_eq_ok.mp h)⟩

theorem index_of_exhausted {on name : String} {reason : StopReason}
    (h : br.following registry last = .error (.unrecoverable on name reason)) :
    ∃ j, indexAfter br last = .ok j ∧ br.steps[j]? = none := by
  unfold following at h
  split at h
  · cases h
  · rename_i j hj
    split at h
    · exact ⟨j, hj, ‹_›⟩
    · rename_i t _
      cases hstep : Step.ofTemplate t br.name registry <;> simp [hstep, Except.mapError] at h

end Branch

namespace Engine
variable {ctx : Context} {m : Memory} {e : Engine} {p : PositionRecord} {b : BoundStep}
variable {x : StepBehavior.Execution} {error : StepError} {reason : StopReason} {name : String}

/-- The run went on at a step of the branch: the step has a new step run without attempts at a new
position, and the position that the run left is marked. -/
structure Resumed (registry : Registry) (m : Memory) (run : Int) (p : PositionRecord) (br : Branch)
    (t : StepTemplate) (e' : Engine) (m' : Memory) (b' : BoundStep) (p' : PositionRecord) :
    Prop where
  step : b'.step.Built registry t br.name
  new : m.stepRuns.get? b'.stepRun.record.id = none
  stored : m'.stepRuns.get? b'.stepRun.record.id = some b'.stepRun.record
  visits : b'.stepRun.record.Visits b'.step
  owned : b'.stepRun.record.run = run
  untried : b'.stepRun.attempts = [] ∧ m'.attemptsOf b'.stepRun.record.id = []
  current : m'.latestPosition run = some p' ∧ p'.stepRun = b'.stepRun.record.id
  marked : m'.positionsOf run = (m.positionsOf run).map (fun q =>
    if q = p then { q with branchedOnError := true } else q) ++ [p']
  record : ∃ r, m'.runs.get? run = some r ∧ r.branch = br.name ∧
    r.state = RunState.stepInProgress.name
  seated : e'.Seated registry m' p' b'

structure GivenUp (m : Memory) (run : Int) (branch : String) (m' : Memory) : Prop where
  positions : m'.positionsOf run = m.positionsOf run
  record : ∃ r, m'.runs.get? run = some r ∧ r.branch = branch ∧ r.state = RunState.error.name

/-- Whenever the current step fails without being granted a retry, and its template has an error
branch, the call goes on there or gives the run up, as the branch has a step left or not. -/
def SwitchesOnError (ctx : Context) (m : Memory) (e : Engine) : Prop :=
  ∀ raw x error reason p b t name, e.position = some p → e.stepEngine.current? = some b →
    e.execution? ctx raw = some x → x.outcome = .error error → e.Denied ctx m b error reason →
    e.config.tree.step b.step.branch b.step.name = .ok t → t.switchTarget = some name →
    ∃ br j, e.config.tree.branch name = .ok br ∧ br.name = name ∧
      m.resumeIndex? e.run.record.id b.step.branch br = some j ∧
      match br.steps[j]? with
      | some u => ∃ e' m' b' p',
        e.runStep ctx raw m = ((.ok ⟨.success none, .step b'⟩, e'), m') ∧
          Resumed ctx.registry m e.run.record.id p br u e' m' b' p'
      | none => ∃ cause e' m',
        e.runStep ctx raw m =
          ((.error (.unrecoverable b.step.branch b.step.name cause), e'), m') ∧
          GivenUp m e.run.record.id e.run.record.branch m'

section Denied
variable (hw : e.config.tree.WellFormed ctx.registry) (hd : e.Denied ctx m b error reason)
include hw hd

theorem Denied.spent_self (h : e.Seated ctx.registry m p b) (hretryable : error.retryable = true)
    (hself : targetName b.step error = b.step.name) :
    ctx.budget b.step ≤ b.stepRun.attempts.length := by
  cases hd with
  | fatal fatal => rw [hretryable] at fatal; cases fatal
  | offBranch _ branch missing =>
    obtain ⟨t, hfrom⟩ := h.step.builtFrom_branch hw branch
    rw [hself, hfrom.step?_eq hw] at missing
    cases missing
  | spent _ _ budget => exact budget
  | spentThere _ targets => exact absurd (targets.name.trans hself) targets.other

theorem Denied.spent_other {target : Step} (hretryable : error.retryable = true)
    (ht : e.Targets ctx b error target) :
    ctx.budget target ≤ m.tries e.run.record.id target.branch target.name := by
  cases hd with
  | fatal fatal => rw [hretryable] at fatal; cases fatal
  | offBranch _ branch missing =>
    rw [← ht.branch] at branch
    obtain ⟨t, hfrom⟩ := ht.step.builtFrom_branch hw branch
    rw [← ht.name, hfrom.step?_eq hw] at missing
    cases missing
  | spent _ self => exact absurd (ht.name.trans self) ht.other
  | spentThere _ targets budget =>
    have hsame := targets.step.unique hw ht.step (targets.branch.trans ht.branch.symm)
      (targets.name.trans ht.name.symm)
    exact hsame ▸ budget

end Denied

/-- After a failure for which no retry is granted the run goes on at the error branch of its step,
or is given up. -/
theorem Goes.of_denied {a : AttemptRecord} {w : Way} {answer : Except EngineError Outcome}
    (hw : e.config.tree.WellFormed ctx.registry) (h : e.Seated ctx.registry m p b)
    (hg : e.Goes ctx m b a x w answer) (hout : x.outcome = .error error)
    (hd : e.Denied ctx m b error reason) (hswitch : b.step.switchTarget = some name) :
    ∃ br, e.config.tree.branch name = .ok br ∧ br.name = name ∧
      ((∃ step, br.following ctx.registry (lastBefore b.step br (m.historyOf e.run.record.id)) =
          .ok step ∧ step.branch = br.name ∧ w = .enter step .stepInProgress true ∧
          answer = .ok ⟨.success none, .step (e.visiting step (m.nextId + 1) m.clock)⟩) ∨
        ∃ on last exhausted cause,
          br.following ctx.registry (lastBefore b.step br (m.historyOf e.run.record.id)) =
            .error (.unrecoverable on last exhausted) ∧
          w = .close .error ∧ answer = stoppedAnswer b cause) := by
  cases hg with
  | replay outcome | queue outcome | exit outcome | next outcome | last outcome =>
    cases outcome.symm.trans hout
  | retry outcome retryable self budget =>
    cases outcome.symm.trans hout
    have hspent := hd.spent_self hw h retryable self
    omega
  | reset outcome retryable targets found budget | first outcome retryable targets found budget =>
    cases outcome.symm.trans hout
    have hspent := hd.spent_other hw retryable targets
    omega
  | switch _ _ switches branch follows _ same =>
    obtain rfl := Option.some.inj (switches.symm.trans hswitch)
    exact ⟨_, branch, rfl, .inl ⟨_, follows, same, rfl, rfl⟩⟩
  | stop _ _ switches =>
    rw [hswitch] at switches
    cases switches
  | deadEnd _ _ switches branch follows =>
    obtain rfl := Option.some.inj (switches.symm.trans hswitch)
    exact ⟨_, branch, rfl, .inr ⟨_, _, _, _, follows, rfl, rfl⟩⟩

/-- A step whose error branch is its own is followed by the step after it. -/
theorem Seated.resumeIndex?_own (hm : m.Sound) (hw : e.config.tree.WellFormed ctx.registry)
    (h : e.Seated ctx.registry m p b) : ∃ br t i, e.config.tree.branch b.step.branch = .ok br ∧
      br.steps[i]? = some t ∧ t.name = b.step.name ∧
      m.resumeIndex? e.run.record.id b.step.branch br = some (i + 1) := by
  obtain ⟨br, t, hfrom⟩ := h.step.builtFrom
  have hname := hfrom.on
  obtain ⟨i, hi⟩ := List.getElem?_of_mem hfrom.template
  refine ⟨br, t, i, hfrom.foundBranch hw, hi, hfrom.name, indexAfter_eq_ok_iff.mp ?_⟩
  have hsame : (decide (br.name ≠ b.step.branch) && br.resetOnSwitch) = false := by simp [hname]
  have hposition := hw.position?_eq hfrom.branch hi
  rw [hfrom.name] at hposition
  rw [lastBefore, hsame, hname, h.lastOn_eq hm]
  simp [indexAfter, hposition]

theorem mark_eq_of_mem {y : Change} (hm : m.Sound) (hp : p ∈ m.positionsOf e.run.record.id)
    (hy : y.marked = some p.id) {q : PositionRecord} (hq : q ∈ m.positionsOf e.run.record.id) :
    y.mark q = if q = p then { q with branchedOnError := true } else q := by
  have hsame : y.marked = some q.id ↔ q = p := by
    rw [hy, Option.some.injEq]
    constructor
    · intro hid
      have hget := hm.position_get? hp
      rw [hid, hm.position_get? hq] at hget
      exact Option.some.inj hget
    · rintro rfl
      rfl
  simp only [Change.mark, hsame]

section Committed
variable {w : Way} {a : AttemptRecord} (version : Int) (hm : m.Sound)
  (h : e.Seated ctx.registry m p b)
  (hturn : e.Turn ctx.registry m (w.change m e p a) (w.nextId m) (w.engine m e b a x)
    (w.position m e p) (w.step m e b a))
include hm h hturn

theorem Seated.resumed {step : Step} {br : Branch} {t : StepTemplate}
    (hw : w = .enter step .stepInProgress true) (hbranch : step.branch = br.name)
    (hstep : step.Built ctx.registry t br.name) :
    Resumed ctx.registry m e.run.record.id p br t ((w.engine m e b a x).atVersion version)
      (m.post (w.change m e p a) (w.nextId m) ((w.engine m e b a x).stored version m.clock))
      (w.step m e b a) (w.position m e p) := by
  subst hw
  have hseated := hturn.seated hm h.underway.recorded version m.clock
  have hp := latestPosition_mem h.underway.latest
  constructor
  case step => exact hstep
  case new => exact hm.stepRuns_fresh (hturn.fits.visit rfl).1
  case stored => exact (post_stepRuns_get? hm hturn.fits).mpr (.inr ⟨rfl, rfl⟩)
  case visits => exact hturn.visits
  case owned => rfl
  case untried => exact ⟨rfl, attemptsOf_post_visit hm hturn.fits rfl⟩
  case current => exact ⟨hseated.underway.latest, rfl⟩
  case marked =>
    rw [hturn.fits.positionsOf hm]
    congr 1
    exact List.map_congr_left fun q hq => mark_eq_of_mem hm hp rfl hq
  case record => exact ⟨_, hturn.stored_run version m.clock, hbranch, rfl⟩
  case seated => exact hseated

omit h in
theorem givenUp_of_close (hw : w = .close .error) :
    GivenUp m e.run.record.id e.run.record.branch (m.post (w.change m e p a) (w.nextId m)
      ((w.engine m e b a x).stored version m.clock)) := by
  subst hw
  constructor
  case positions =>
    have hmark : (Way.change m e p a (.close .error)).mark = id := by
      funext q
      exact if_neg nofun
    rw [hturn.fits.positionsOf hm, hmark, List.map_id]
    exact List.append_nil _
  case record => exact ⟨_, hturn.stored_run version m.clock, rfl, rfl⟩

end Committed

theorem Seated.switchesOnError (hm : m.Sound) (hw : e.config.tree.WellFormed ctx.registry)
    (h : e.Seated ctx.registry m p b) : e.SwitchesOnError ctx m := by
  intro raw x error reason p' b' t name hp hb hx hout hd ht htarget
  obtain rfl : p' = p := Option.some.inj (hp.symm.trans h.position)
  obtain rfl : b' = b := Option.some.inj (hb.symm.trans h.holds.current)
  have hswitch : b'.step.switchTarget = some name :=
    (h.step.built hw ht).switchTarget.trans htarget
  obtain ⟨c, hc, hv⟩ := h.held.version
  have hran := h.runStep_ran hm hw hc hv raw
  rcases hrun : e.runStep ctx raw m with ⟨⟨answer, e'⟩, m'⟩
  rw [hrun] at hran
  cases hran with
  | @committed answer y n e' q b'' played =>
    have hturn := (played.turn hm hw h).1
    cases played with
    | prompted prompts => cases prompts.waits.symm.trans hx
    | executed executed goes =>
      cases executed.symm.trans hx
      obtain ⟨br, hbranch, hname, hcases⟩ := goes.of_denied hw h hout hd hswitch
      rcases hcases with ⟨step, hfollows, hon, hway, rfl⟩ | ⟨_, _, _, cause, hfollows, hway, rfl⟩
      · obtain ⟨j, u, hj, hu, hbuilt⟩ := Branch.index_of_following hfollows
        refine ⟨br, j, hbranch, hname, indexAfter_eq_ok_iff.mp hj, ?_⟩
        have hresumed := h.resumed (c.version + 1) hm hturn hway hon hbuilt
        subst hway
        rw [hu]
        exact ⟨_, _, _, _, rfl, hresumed⟩
      · obtain ⟨j, hj, hnone⟩ := Branch.index_of_exhausted hfollows
        refine ⟨br, j, hbranch, hname, indexAfter_eq_ok_iff.mp hj, ?_⟩
        rw [hnone]
        exact ⟨cause, _, _, rfl, givenUp_of_close (c.version + 1) hm hturn hway⟩
  | ended state =>
    obtain ⟨hfinished, herror⟩ := not_over_of_execution hx
    exact (state.elim hfinished herror).elim
  | refused refusal executed impossible =>
    cases executed.symm.trans hx
    cases impossible with
    | queue leaves => cases leaves.symm.trans hout
    | replay replays => cases replays.symm.trans hout

end Engine

namespace World
variable {registry : Registry} {w : World}

/-- A step that fails without being granted a retry leads to its error branch, if it has one. The
run goes on there where its history says, or is given up if the branch has no step left. -/
theorem error_branch_taken_up {id : Int} {r : RunRecord} (h : Reachable registry w)
    (hr : w.store.runs.get? id = some r) :
    (∃ e m, (Engine.fresh (w.context registry) id).run w.store = (.ok e, m) ∧
      e.run.record.id = id ∧ w.catalog.resolve r.configTag = .ok e.config ∧
      e.SwitchesOnError (w.context registry) m) ∧
    ∀ slot e, w.engine? slot = some e → e.run.record.id = id → ¬ e.Waiting → ¬ e.Stale w.store →
      w.catalog.resolve r.configTag = .ok e.config ∧
      e.SwitchesOnError (w.context registry) w.store := by
  have hsound := h.sound
  have hid : r.id = id := (hsound.store.runs hr).1
  constructor
  · subst hid
    obtain ⟨config, hconfig, htracks⟩ := hsound.runs hr
    have hwell := hsound.flows hconfig
    obtain ⟨e, m, p, b, hfresh, hm, rfl, hsame, hseated, -⟩ :=
      Engine.fresh_seated (w.context registry) hsound.store hwell hconfig hr htracks
    exact ⟨e, m, hfresh, hsame, hconfig, hseated.switchesOnError hm hwell⟩
  · intro slot e he hrun hplaced hstale
    have hadmitted := hsound.engines he
    obtain ⟨hcurrent, hwaiting | ⟨p, b, hseated⟩⟩ := hadmitted.current hstale
    · exact absurd hwaiting hplaced
    · have htag : e.run.record.configTag = r.configTag := by
        rw [hcurrent.record_eq (hrun ▸ hr)]
      exact ⟨htag ▸ hadmitted.flow,
        hseated.switchesOnError hsound.store (hsound.flows hadmitted.flow)⟩

/-- The menu of the helpline is tried once, so that a key that it does not have leads to the
apology. -/
theorem error_branch_taken_up_helpline : ∃ e p e' m' b' p',
    Helpline.asked.engine? 0 = some e ∧ e.position = some p ∧
    e.runStep (Helpline.asked.context .builtins) (some "9") Helpline.asked.store =
      ((.ok ⟨.success none, .step b'⟩, e'), m') ∧
    Engine.Resumed .builtins Helpline.asked.store 1 p Helpline.apology Helpline.regrets e' m' b'
      p' := by
  have hstored : (Helpline.asked.store.runs.get? 1).map (·.version) = some 2 := by
    decide +kernel
  obtain ⟨r, hr, hversion⟩ := Option.map_eq_some_iff.mp hstored
  obtain ⟨e, p, b, x, error, he, hid, hv, hp, hb, hconfig, hname, hbranch, hx, hout, hretryable,
      hself, hspent⟩ : ∃ e p b x error, Helpline.asked.engine? 0 = some e ∧
      e.run.record.id = 1 ∧ e.run.record.version = 2 ∧ e.position = some p ∧
      e.stepEngine.current? = some b ∧ e.config = Helpline.flow ∧ b.step.name = "topic" ∧
      b.step.branch = "lines" ∧
      e.execution? (Helpline.asked.context .builtins) (some "9") = some x ∧
      x.outcome = .error error ∧ error.retryable = true ∧ targetName b.step error = b.step.name ∧
      (Helpline.asked.context .builtins).budget b.step ≤ b.stepRun.attempts.length :=
    ⟨_, _, _, _, _, rfl, rfl, rfl, rfl, rfl, rfl, rfl, rfl, rfl, rfl, rfl, rfl, by decide⟩
  have hwaiting : ¬ e.Waiting := by
    rintro ⟨-, hposition⟩
    rw [hposition] at hp
    cases hp
  have hstale : ¬ e.Stale Helpline.asked.store :=
    Engine.not_stale (hid ▸ hr) (hversion.trans hv.symm)
  have htemplate : e.config.tree.step b.step.branch b.step.name = .ok Helpline.topic := by
    rw [hconfig, hname, hbranch]
    rfl
  have hswitches := ((error_branch_taken_up Helpline.reachable_asked hr).2 0 e he hid hwaiting
    hstale).2
  obtain ⟨br, j, hfound, -, hj, hcall⟩ := hswitches (some "9") x error _ p b Helpline.topic
    "apology" hp hb hx hout (.spent hretryable hself hspent) htemplate rfl
  obtain rfl : Helpline.apology = br := Except.ok.inj (by rw [← hfound, hconfig]; rfl)
  obtain rfl : 0 = j := Option.some.inj (by rw [← hj, hbranch]; rfl)
  obtain ⟨e', m', b', p', hrun, hresumed⟩ := hcall
  exact ⟨e, p, e', m', b', p', he, hp, hrun, hid ▸ hresumed⟩

end World
end CallFlow
