import CallFlow.Proofs.World.Trail

/-! # The flow explains the history

A run goes from one position to the next for one of three reasons: its step completed and the
next one of the branch was entered, a step failed and another one of the branch was tried, or the
run switched branch. Only a switch marks the position that it leaves, so that an unmarked position
is never followed by one on another branch.
-/
namespace CallFlow
open Memory

def Branch.Adjacent (b : Branch) (t t' : StepTemplate) : Prop :=
  ∃ before rest, b.steps = before ++ t :: t' :: rest

theorem StepTree.WellFormed.adjacent {tree : StepTree} {registry : Registry} {b : Branch}
    {name : String} {t : StepTemplate} {step : Step} (hw : tree.WellFormed registry)
    (hb : b ∈ tree.branches) (ht : tree.step b.name name = .ok t)
    (h : b.following registry (some name) = .ok step) :
    ∃ t', b.Adjacent t t' ∧ t'.name = step.name := by
  obtain ⟨before, t₁, t', rest, hsteps, hfirst, hsecond⟩ := Branch.following_eq_ok h
  -- names are unique on a branch, so the template on the left is the one with that name
  have hleft : tree.step b.name t₁.name = .ok t₁ := hw.step_eq hb (by simp [hsteps])
  rw [hfirst, ht] at hleft
  obtain rfl := Except.ok.inj hleft
  exact ⟨t', ⟨before, rest, hsteps⟩, hsecond.name.symm⟩

namespace Memory

structure Follows (m : Memory) (run : Int) (p q : PositionRecord) : Prop where
  first : p ∈ m.positionsOf run
  second : q ∈ m.positionsOf run
  order : q.order = p.order + 1

def OpensVisit (m : Memory) (run : Int) (q : PositionRecord) : Prop :=
  ∀ p ∈ m.positionsOf run, p.order < q.order → p.stepRun ≠ q.stepRun

inductive Jump (m : Memory) (config : FlowConfig) (run : Int) (p q : PositionRecord)
    (s t : StepRunRecord) : Prop
  | switched {left} (marked : p.branchedOnError = true)
      (template : config.tree.step s.branch s.name = .ok left)
      (switches : left.switchTarget = some t.branch) (opens : m.OpensVisit run q)
  | advanced {b left entered} (unmarked : p.branchedOnError = false)
      (template : config.tree.step s.branch s.name = .ok left) (remains : left.exitPath = none)
      (branch : config.tree.branch s.branch = .ok b) (adjacent : b.Adjacent left entered)
      (enters : entered.name = t.name) (same : t.branch = s.branch) (opens : m.OpensVisit run q)
  | reset (unmarked : p.branchedOnError = false) (same : t.branch = s.branch)
      (other : t.name ≠ s.name)
      (failed : ∃ a ∈ m.attemptsOf p.stepRun, a.failed = true ∧ a.retryable = true)

/-- The flow explains every two positions of the run that follow each other. -/
def Explained (m : Memory) (config : FlowConfig) (r : RunRecord) : Prop :=
  ∀ p q, m.Follows r.id p q → ∃ s t, m.stepRuns.get? p.stepRun = some s ∧
    m.stepRuns.get? q.stepRun = some t ∧ m.Jump config r.id p q s t

variable {m : Memory} {config : FlowConfig} {x : Change} {next run : Int} {r : RunRecord}
variable {p q : PositionRecord} {s t : StepRunRecord}

theorem Jump.same_branch (h : m.Jump config run p q s t) (hp : p.branchedOnError = false) :
    t.branch = s.branch := by
  cases h with
  | switched marked =>
    rw [hp] at marked
    cases marked
  | advanced _ _ _ _ _ _ same => exact same
  | reset _ same => exact same

/-- A jump stays explained where its second position still opens a visit and no attempt is lost. -/
theorem Jump.carry {m' : Memory} {q' : PositionRecord}
    (hopens : m.OpensVisit run q → m'.OpensVisit run q')
    (hattempts : ∀ a ∈ m.attemptsOf p.stepRun, a ∈ m'.attemptsOf p.stepRun)
    (h : m.Jump config run p q s t) : m'.Jump config run p q' s t := by
  cases h with
  | switched marked template switches opens =>
    exact .switched marked template switches (hopens opens)
  | advanced unmarked template remains branch adjacent enters same opens =>
    exact .advanced unmarked template remains branch adjacent enters same (hopens opens)
  | reset unmarked same other failed =>
    obtain ⟨a, ha, hfailed⟩ := failed
    exact .reset unmarked same other ⟨a, hattempts a ha, hfailed⟩

theorem Recorded.latest_of_order {registry : Registry} (h : m.Recorded registry config run)
    (hp : p ∈ m.positionsOf run) (ho : p.order = (m.positionsOf run).length) :
    m.latestPosition run = some p := by
  cases hlatest : m.latestPosition run with
  | none => simp [latestPosition_eq_none_iff.mp hlatest] at hp
  | some l =>
    have hl := h.order_latest hlatest
    rw [h.order_inj hp (latestPosition_mem hlatest) (ho.trans hl.symm)]

section Post
variable (hm : m.Sound) (hx : x.Fits m next run)
include hm hx

/-- What was entered for the first time stays so: new positions are later. -/
theorem OpensVisit.post (hq : q ∈ m.positionsOf run) (h : m.OpensVisit run q) :
    (m.post x next r).OpensVisit run (x.mark q) := by
  intro p hp hlt
  rcases (mem_positionsOf_post hm hx).mp hp with ⟨p, hold, rfl⟩ | hp
  · rw [Change.mark_order, Change.mark_order] at hlt
    rw [Change.mark_stepRun, Change.mark_stepRun]
    exact h p hold hlt
  · have hlate := (hx.position hp).2.2.2.1 q hq
    rw [Change.mark_order] at hlt
    omega

theorem opensVisit_post (hq : x.position = some q) {v : StepRunRecord} (hv : x.visit = some v)
    (hid : q.stepRun = v.id) : (m.post x next r).OpensVisit run q := by
  intro p hp hlt
  rcases (mem_positionsOf_post hm hx).mp hp with ⟨p, hold, rfl⟩ | hp
  · obtain ⟨s, hs, -⟩ := hm.joined hold
    rw [Change.mark_stepRun, hid]
    intro heq
    rw [heq, hm.stepRuns_fresh (hx.visit hv).1] at hs
    cases hs
  · obtain rfl : q = p := Option.some.inj (hq.symm.trans hp)
    omega

end Post

theorem Explained.sameLeg {m' : Memory} (hm : m.Sound) (hs : SameLeg m m' r.id)
    (h : m.Explained config r) : m'.Explained config r := by
  intro p q hf
  obtain ⟨hp, hq, ho⟩ := hf
  rw [hs.positions] at hp hq
  obtain ⟨s, t, hget, hget', hjump⟩ := h p q ⟨hp, hq, ho⟩
  have hrun {p : PositionRecord} {s : StepRunRecord} (hp : p ∈ m.positionsOf r.id)
      (hget : m.stepRuns.get? p.stepRun = some s) : s.run = r.id := by
    obtain ⟨u, hu, hrun, -⟩ := hm.joined hp
    obtain rfl : u = s := Option.some.inj (hu.symm.trans hget)
    exact hrun
  refine ⟨s, t, (hs.stepRuns (hrun hp hget)).mpr hget, (hs.stepRuns (hrun hq hget')).mpr hget', ?_⟩
  refine hjump.carry (fun hopens p hp => ?_) fun a ha => ?_
  · rw [hs.positions] at hp
    exact hopens p hp
  · rw [hs.attempts hget (hrun hp hget)]
    exact ha

end Memory

namespace Engine
variable {ctx : Context} {m : Memory} {e e' : Engine} {p p' q : PositionRecord} {b b' : BoundStep}
variable {a : AttemptRecord} {x : StepBehavior.Execution} {w : Way} {c : Change} {n : Int}
variable {answer : Except EngineError Outcome} {r : RunRecord}

theorem newAttempt_retryable {raw : Option String} {error : StepError} (id : Int) (clock : String)
    (hout : x.outcome = .error error) (hretry : error.retryable = true) :
    (b.newAttempt raw x id clock).failed = true ∧ (b.newAttempt raw x id clock).retryable = true := by
  simp [BoundStep.newAttempt, NewAttempt.toRecord, StepEngine.newAttempt, hout, hretry]

/-- The position that a run goes to is explained by the reason why it goes there. -/
theorem Goes.jump (hm : m.Sound) (hw : e.config.tree.WellFormed ctx.registry)
    (h : e.Seated ctx.registry m p b) {raw : Option String}
    (ha : a = b.newAttempt raw x m.nextId m.clock) (hg : e.Goes ctx m b a x w answer)
    (hfits : (w.change m e p a).Fits m (w.nextId m) e.run.record.id)
    (hq : (w.change m e p a).position = some q) :
    (m.post (w.change m e p a) (w.nextId m) r).Jump e.config e.run.record.id
      ((w.change m e p a).mark p) q b.stepRun.record (w.step m e b a).stepRun.record := by
  obtain ⟨-, hcurrent, -⟩ := h.current_run hm
  obtain ⟨br, t, hfrom⟩ := h.step.builtFrom
  have hbranch := hfrom.on
  have hfound := hfrom.foundBranch hw
  have htemplate := hfrom.found hw
  have hunmarked (hnone : (w.change m e p a).marked = none) :
      ((w.change m e p a).mark p).branchedOnError = false := by
    simp [Change.mark, hnone, h.underway.unmarked]
  have hreset {error : StepError} (hout : x.outcome = .error error)
      (hretry : error.retryable = true) :
      ∃ f ∈ (m.post (w.change m e p a) (w.nextId m) r).attemptsOf
        ((w.change m e p a).mark p).stepRun, f.failed = true ∧ f.retryable = true := by
    have hstep : a.stepRun = p.stepRun := by
      rw [ha, hcurrent]
      rfl
    refine ⟨a, ?_, ha ▸ newAttempt_retryable _ _ hout hretry⟩
    rw [post_attemptsOf hm hfits, Change.mark_stepRun]
    simp [hstep]
  rw [← h.visits.branch] at hbranch hfound htemplate
  rw [← h.visits.name] at htemplate
  cases hg with
  | @next result t₀ br₀ step outcome completes template remains branch follows known same =>
    rw [← h.visits.branch] at branch template
    rw [← h.visits.name] at template follows
    obtain rfl : br₀ = br := Except.ok.inj (branch.symm.trans hfound)
    obtain ⟨entered, hadjacent, henters⟩ := hw.adjacent hfrom.branch (hbranch ▸ template) follows
    refine .advanced (hunmarked rfl) template remains branch hadjacent henters
      (same.trans h.visits.branch.symm) ?_
    exact opensVisit_post hm hfits hq rfl (by cases hq; rfl)
  | reset outcome retryable targets found =>
    obtain ⟨-, -, hsb, hsn⟩ := hm.findStepRun found
    refine .reset (hunmarked rfl) ?_ ?_ (hreset outcome retryable)
    · exact hsb.trans (targets.branch.trans h.visits.branch.symm)
    · exact fun heq => targets.other (hsn.symm.trans (heq.trans h.visits.name))
  | first outcome retryable targets found =>
    refine .reset (hunmarked rfl) ?_ ?_ (hreset outcome retryable)
    · exact targets.branch.trans h.visits.branch.symm
    · exact fun heq => targets.other (heq.trans h.visits.name)
  | @switch error reason on step outcome denied switches branch follows known same =>
    have hmarked : ((Way.change m e p a (.enter step .stepInProgress true)).mark p).branchedOnError =
        true := by
      simp [Change.mark, Way.change]
    have hswitch : t.switchTarget = b.step.switchTarget := hfrom.built.switchTarget.symm
    refine .switched hmarked htemplate (hswitch.trans (switches.trans (congrArg some same.symm))) ?_
    exact opensVisit_post hm hfits hq rfl (by cases hq; rfl)
  | replay | queue | exit | last | retry | stop | deadEnd => cases hq

/-- A committed call marks no other position than the one that it leaves. -/
theorem Turned.marked_latest (h : e.Turned ctx m c n e' p' b')
    (hp : m.latestPosition e.run.record.id = some p) {id : Int} (hid : c.marked = some id) :
    id = p.id := by
  cases h with
  | opened _ _ opened => cases opened with | intro => cases hid
  | @played p₀ b raw answer seated played =>
    obtain rfl : p₀ = p := Option.some.inj (seated.underway.latest.symm.trans hp)
    cases played with
    | prompted => cases hid
    | executed executed goes => exact (goes.switched_iff.mp hid).1

theorem Turned.mark_eq (hm : m.Sound) (hrec : m.Recorded ctx.registry e.config e.run.record.id)
    (h : e.Turned ctx m c n e' p' b') (hf : m.Follows e.run.record.id p q) : c.mark p = p := by
  refine if_neg fun hid => ?_
  obtain ⟨l, hl⟩ := Option.ne_none_iff_exists'.mp fun hnone => by
    have hp := hf.first
    rw [latestPosition_eq_none_iff.mp hnone] at hp
    cases hp
  have hget := hm.position_get? hf.first
  rw [h.marked_latest hl hid, hm.position_get? (latestPosition_mem hl)] at hget
  obtain rfl : l = p := Option.some.inj hget
  have hlast := hrec.order_latest hl
  have hle := hrec.order_le hf.second
  have ho := hf.order
  omega

section Explained
variable (version : Int) (hm : m.Sound) (hw : e.config.tree.WellFormed ctx.registry)
  (hrec : m.Recorded ctx.registry e.config e.run.record.id)
  (hturn : e.Turn ctx.registry m c n e' p' b') (h : e.Turned ctx m c n e' p' b')
include hm hrec hturn h

theorem Turned.explained_before (ih : m.Explained e.config r) (hid : r.id = e.run.record.id)
    (hf : m.Follows e.run.record.id p q) :
    ∃ s t, (m.post c n (e'.stored version m.clock)).stepRuns.get? (c.mark p).stepRun = some s ∧
      (m.post c n (e'.stored version m.clock)).stepRuns.get? (c.mark q).stepRun = some t ∧
      (m.post c n (e'.stored version m.clock)).Jump e.config e.run.record.id (c.mark p)
        (c.mark q) s t := by
  obtain ⟨s, t, hs, ht, hjump⟩ := ih p q (hid ▸ hf)
  have hattempts : ∀ a ∈ m.attemptsOf p.stepRun,
      a ∈ (m.post c n (e'.stored version m.clock)).attemptsOf p.stepRun := by
    rw [post_attemptsOf hm hturn.fits]
    exact fun a ha => List.mem_append_left _ ha
  rw [Change.mark_stepRun, Change.mark_stepRun, h.mark_eq hm hrec hf]
  exact ⟨s, t, (post_stepRuns_get? hm hturn.fits).mpr (.inl hs),
    (post_stepRuns_get? hm hturn.fits).mpr (.inl ht),
    (hid ▸ hjump).carry (·.post hm hturn.fits hf.second) hattempts⟩

include hw in
/-- A committed call explains the position that it adds by the one that was the last before. -/
theorem Turned.explained_added (hp : p ∈ m.positionsOf e.run.record.id) (hq : c.position = some q)
    (ho : q.order = p.order + 1) :
    ∃ s t, (m.post c n (e'.stored version m.clock)).stepRuns.get? (c.mark p).stepRun = some s ∧
      (m.post c n (e'.stored version m.clock)).stepRuns.get? q.stepRun = some t ∧
      (m.post c n (e'.stored version m.clock)).Jump e.config e.run.record.id (c.mark p) q s t := by
  obtain rfl := hturn.leads.position_eq hq
  have hnext := hturn.leads.order hq
  have hlatest := hrec.latest_of_order hp (by omega)
  cases h with
  | opened stored fresh =>
    have hnone := fresh.positions
    rw [(hm.runs stored).1] at hnone
    rw [hnone] at hp
    cases hp
  | @played p₀ b raw answer seated played =>
    obtain rfl : p₀ = p := Option.some.inj (seated.underway.latest.symm.trans hlatest)
    cases played with
    | prompted => cases hq
    | executed executed goes =>
      rw [Change.mark_stepRun]
      exact ⟨_, _, (post_stepRuns_get? hm hturn.fits).mpr (.inl seated.underway.current),
        hturn.leads.current hm hturn.fits, goes.jump hm hw seated rfl hturn.fits hq⟩

include hw in
/-- After a committed call the flow explains the history as it did before. -/
theorem Turned.explained (hr : m.runs.get? e.run.record.id = some r)
    (ih : m.Explained e.config r) :
    (m.post c n (e'.stored version m.clock)).Explained e.config (e'.stored version m.clock) := by
  have hid : (e'.stored version m.clock).id = e.run.record.id := hturn.same.id
  intro p q hf
  rw [hid] at hf ⊢
  obtain ⟨hp, hq, ho⟩ := hf
  rcases (mem_positionsOf_post hm hturn.fits).mp hp with ⟨p, hpold, rfl⟩ | hpnew
  · rw [Change.mark_order] at ho
    rcases (mem_positionsOf_post hm hturn.fits).mp hq with ⟨q, hqold, rfl⟩ | hqnew
    · rw [Change.mark_order] at ho
      exact h.explained_before version hm hrec hturn ih (hm.runs hr).1 ⟨hpold, hqold, ho⟩
    · exact h.explained_added version hm hw hrec hturn hpold hqnew ho
  · -- nothing comes after a new position
    obtain ⟨-, -, -, hlate, -⟩ := hturn.fits.position hpnew
    rcases (mem_positionsOf_post hm hturn.fits).mp hq with ⟨q, hqold, rfl⟩ | hqnew
    · have hlt := hlate q hqold
      rw [Change.mark_order] at ho
      omega
    · obtain rfl : p = q := Option.some.inj (hpnew.symm.trans hqnew)
      omega

end Explained

end Engine

namespace World
variable {registry : Registry} {w : World}

theorem lasting_explained (count : UInt32) :
    Lasting count fun m config r => m.Explained config r where
  sameLeg hm hs h := h.sameLeg hm hs
  fresh hu := by
    intro p q hf
    have hp := hf.first
    rw [hu.positions] at hp
    cases hp
  turned version hm hw _ hr hrec hturn hturned h := hturned.explained version hm hw hrec hturn hr h

/-- In every history the flow explains every position by the one before it, and an unmarked
position is followed by one on the same branch. -/
theorem jumps_explained {id : Int} {r : RunRecord} {p q : PositionRecord}
    (h : Reachable registry w) (hr : w.store.runs.get? id = some r)
    (hf : w.store.Follows id p q) :
    ∃ config s t, w.catalog.resolve r.configTag = .ok config ∧
      w.store.stepRuns.get? p.stepRun = some s ∧ w.store.stepRuns.get? q.stepRun = some t ∧
      w.store.Jump config id p q s t ∧ (p.branchedOnError = false → t.branch = s.branch) := by
  obtain ⟨config, hconfig, -⟩ := h.sound.runs hr
  have hid : r.id = id := (h.sound.store.runs hr).1
  obtain ⟨s, t, hs, ht, hjump⟩ :=
    h.grantsUpTo.holds (lasting_explained mostRetries) hr hconfig p q (hid ▸ hf)
  rw [hid] at hjump
  exact ⟨config, s, t, hconfig, hs, ht, hjump, hjump.same_branch⟩

/-- A key that the menu does not have takes the caller to the branch with the apology. -/
theorem jumps_explained_helpline : ∃ (config : FlowConfig) (p q : PositionRecord)
    (s t : StepRunRecord), Helpline.misdialed.store.Follows 1 p q ∧ p.branchedOnError = true ∧
      Helpline.misdialed.store.Jump config 1 p q s t ∧
      Helpline.misdialed.store.stepRuns.get? q.stepRun = some t ∧ t.branch = "apology" := by
  obtain ⟨p, q, hlisted, hmarked, hbranch⟩ : ∃ p q,
      Helpline.misdialed.store.positionsOf 1 = [p, q] ∧ p.branchedOnError = true ∧
      (Helpline.misdialed.store.stepRuns.get? q.stepRun).map (·.branch) = some "apology" :=
    ⟨_, _, rfl, rfl, rfl⟩
  have horders : (Helpline.misdialed.store.positionsOf 1).map (·.order) = [1, 2] := by
    decide +kernel
  have hstored : (Helpline.misdialed.store.runs.get? 1).isSome = true := by decide +kernel
  obtain ⟨r, hr⟩ := Option.isSome_iff_exists.mp hstored
  rw [hlisted] at horders
  have hfollows : Helpline.misdialed.store.Follows 1 p q := by
    refine ⟨by simp [hlisted], by simp [hlisted], ?_⟩
    simp only [List.map_cons, List.map_nil, List.cons.injEq, and_true] at horders
    omega
  obtain ⟨config, s, t, -, -, ht, hjump, -⟩ :=
    jumps_explained Helpline.reachable_misdialed hr hfollows
  rw [ht] at hbranch
  exact ⟨config, p, q, s, t, hfollows, hmarked, hjump, ht, Option.some.inj hbranch⟩

end World
end CallFlow
