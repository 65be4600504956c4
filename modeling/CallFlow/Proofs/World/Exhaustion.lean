import CallFlow.Json.Access
import CallFlow.Proofs.World.Budget
import Mathlib.Algebra.Group.Nat.Defs

/-! # Errors run out

A run that is never replayed and never switches branch makes only so many attempts. Going back to
a step lets all steps after it be tried anew, so no single count goes down. But the counts of the
steps, read as digits with the first step of the branch on the left, form a number that every
attempt raises: the digit of the executed step goes up, and only digits on its right may fall.
-/
namespace CallFlow
open Memory

/-! ## Counts as digits -/

section Weigh
variable {α : Type} {digit digit' limit : α → Nat}

/-- The number with these digits, where the digit of an item is at most its limit and one. -/
def weigh (digit limit : α → Nat) : List α → Nat
  | [] => 0
  | t :: rest => digit t * (rest.map (limit · + 2)).prod + weigh digit limit rest

theorem weigh_lt {ts : List α} (h : ∀ t ∈ ts, digit t ≤ limit t + 1) :
    weigh digit limit ts < (ts.map (limit · + 2)).prod := by
  induction ts with
  | nil => exact Nat.one_pos
  | cons t rest ih =>
    have hrest := ih fun u hu => h u (List.mem_cons_of_mem _ hu)
    have hdigit : digit t + 1 ≤ limit t + 2 := Nat.succ_le_succ (h t List.mem_cons_self)
    have hmul := Nat.mul_le_mul_right (rest.map (limit · + 2)).prod hdigit
    rw [Nat.succ_mul] at hmul
    simp only [weigh, List.map_cons, List.prod_cons]
    omega

/-- The number grows when a digit is raised and no digit on its left is changed. -/
theorem weigh_lt_weigh {before rest : List α} {t : α} (hbefore : ∀ u ∈ before, digit' u = digit u)
    (ht : digit' t = digit t + 1) (hrest : ∀ u ∈ rest, digit u ≤ limit u + 1) :
    weigh digit limit (before ++ t :: rest) < weigh digit' limit (before ++ t :: rest) := by
  induction before with
  | nil =>
    have hlt := weigh_lt hrest
    simp only [List.nil_append, weigh, ht, Nat.succ_mul]
    omega
  | cons u before ih =>
    have htail := ih fun v hv => hbefore v (List.mem_cons_of_mem _ hv)
    have hhead := hbefore u List.mem_cons_self
    simp only [List.cons_append, weigh, hhead]
    omega

end Weigh

/-! ## What a call does to the counts -/

namespace Engine
variable {ctx : Context} {m : Memory} {e e' : Engine} {p p' : PositionRecord} {b b' : BoundStep}
variable {a : AttemptRecord} {x : StepBehavior.Execution} {w : Way} {c : Change} {n : Int}
variable {answer : Except EngineError Outcome} {r : RunRecord}

/-- Where a run goes without a switch, it enters no step at or before the executed one, unless it
was never at that step. -/
theorem Goes.enters (hw : e.config.tree.WellFormed ctx.registry)
    (h : e.Seated ctx.registry m p b) (hg : e.Goes ctx m b a x w answer)
    (hmarked : (w.change m e p a).marked = none) {br : Branch} (hbr : br ∈ e.config.tree.branches)
    (hon : br.name = b.step.branch) : ∃ before t rest, br.steps = before ++ t :: rest ∧
      t.name = b.step.name ∧ ∀ v, (w.change m e p a).visit = some v →
        v.branch = br.name ∧ v.name ≠ t.name ∧
          ∀ u ∈ before, u.name = v.name → m.tries e.run.record.id br.name u.name = 0 := by
  have hfound : e.config.tree.branch br.name = .ok br := hw.branch_eq hbr
  obtain ⟨t, hfrom⟩ := h.step.builtFrom_branch hw (hon ▸ hfound)
  have htn := hfrom.name
  have hnames := hw.stepNames br hbr
  obtain ⟨before, rest, hsteps⟩ := List.append_of_mem hfrom.template
  have hplain (hnone : (w.change m e p a).visit = none) : ∃ before t rest,
      br.steps = before ++ t :: rest ∧ t.name = b.step.name ∧
        ∀ v, (w.change m e p a).visit = some v → v.branch = br.name ∧ v.name ≠ t.name ∧
          ∀ u ∈ before, u.name = v.name → m.tries e.run.record.id br.name u.name = 0 := by
    refine ⟨before, t, rest, hsteps, htn, fun v hv => ?_⟩
    rw [hnone] at hv
    cases hv
  cases hg with
  | replay | queue | exit | last | retry | reset | stop | deadEnd => exact hplain rfl
  | switch => cases hmarked
  | first outcome retryable targets found budget =>
    refine ⟨before, t, rest, hsteps, htn, ?_⟩
    rintro _ ⟨⟩
    refine ⟨targets.branch.trans hon.symm, fun heq => targets.other (heq.trans htn), ?_⟩
    intro u _ hu
    rw [hu, hon, ← targets.branch]
    exact tries_of_none found
  | @next result t₀ br₀ step outcome completes template remains branch follows known same =>
    rw [← hon, hfound] at branch
    cases branch
    obtain ⟨before, t, t', rest, hsteps, htn, hbuilt⟩ := Branch.following_eq_ok follows
    have hname : step.name = t'.name := hbuilt.name
    rw [hsteps] at hnames
    have hnames : ((before.map (·.name)) ++ t.name :: t'.name :: rest.map (·.name)).Nodup := by
      simpa using hnames
    obtain ⟨-, hafter, hapart⟩ := List.nodup_append.mp hnames
    refine ⟨before, t, t' :: rest, hsteps, htn, ?_⟩
    rintro _ ⟨⟩
    refine ⟨same.trans hon.symm, ?_, ?_⟩
    · intro heq
      have heq : t'.name = t.name := hname.symm.trans heq
      exact (List.nodup_cons.mp hafter).1 (by simp [heq])
    · intro u hu heq
      have heq : u.name = t'.name := heq.trans hname
      exact absurd heq (hapart _ (List.mem_map_of_mem hu) _ (by simp))

theorem Turned.branch_eq {br : Branch} (h : e.Turned ctx m c n e' p' b')
    (hturn : e.Turn ctx.registry m c n e' p' b') (hmarked : c.marked = none)
    (hfirst : e.config.tree.firstBranch = .ok br)
    (hbranch : ∀ {p b}, e.Seated ctx.registry m p b → e.run.record.branch = br.name) :
    e'.run.record.branch = br.name := by
  cases h with
  | opened _ _ opened =>
    cases opened with
    | intro first head built =>
      rw [hfirst] at first
      cases first
      exact hturn.branch.trans built.branch
  | played seated played =>
    have hstays := hbranch seated
    cases played with
    | prompted => exact hstays
    | @executed x w answer executed goes =>
      cases w with
      | again | close | back => exact hstays
      | enter step state switched =>
        cases switched with
        | false => exact hstays
        | true => cases hmarked

theorem Turned.findStepRun (hm : m.Sound) (hfits : c.Fits m n e.run.record.id)
    (h : e.Turned ctx m c n e' p' b')
    (hlast : ∀ {p b}, e.Seated ctx.registry m p b → m.findStepRun e.run.record.id
      b.stepRun.record.branch b.stepRun.record.name = some b.stepRun.record) :
    (m.post c n r).findStepRun e.run.record.id b'.stepRun.record.branch b'.stepRun.record.name =
      some b'.stepRun.record := by
  cases h with
  | opened _ _ opened => cases opened with | intro => exact findStepRun_post_visit hm hfits rfl
  | played seated played =>
    cases played with
    | prompted => exact (findStepRun_post hm hfits nofun).trans (hlast seated)
    | @executed x w answer executed goes =>
      have hcurrent := hlast seated
      cases w with
      | again | close => exact (findStepRun_post hm hfits nofun).trans hcurrent
      | enter step state switched => exact findStepRun_post_visit hm hfits rfl
      | back target s =>
        cases goes with
        | reset outcome retryable targets found =>
          obtain ⟨-, -, hbranch, hname⟩ := hm.findStepRun found
          rw [← hbranch, ← hname] at found
          exact (findStepRun_post hm hfits nofun).trans found

end Engine

namespace Memory

structure Counted (count : UInt32) (m : Memory) (run : Int) (br : Branch) : Prop where
  digits : ∀ t ∈ br.steps, m.tries run br.name t.name ≤ t.limit count + 1
  total : (m.attemptsIn run).length ≤
    weigh (fun t => m.tries run br.name t.name) (·.limit count) br.steps

/-- The branch that the run is on, with the attempts that it may still make there. -/
structure Weighed (count : UInt32) (m : Memory) (config : FlowConfig) (r : RunRecord)
    (br : Branch) : Prop where
  first : config.tree.firstBranch = .ok br
  branch : r.branch = br.name
  counted : m.Counted count r.id br
  last : ∀ {p s}, m.latestPosition r.id = some p → m.stepRuns.get? p.stepRun = some s →
    m.findStepRun r.id s.branch s.name = some s
  room : ∀ {p s t} {state : RunState}, r.state = state.name → state.Going →
    m.latestPosition r.id = some p → m.stepRuns.get? p.stepRun = some s →
      config.tree.step s.branch s.name = .ok t → m.tries r.id s.branch s.name ≤ t.limit count

/-- The run was never told to play a prompt again, and it never switched branch. -/
structure Straight (m : Memory) (run : Int) : Prop where
  replays : ∀ a ∈ m.attemptsIn run, ¬ a.IsReplay
  switches : ∀ p ∈ m.positionsOf run, p.branchedOnError = false

def Bounded (count : UInt32) (m : Memory) (config : FlowConfig) (r : RunRecord) : Prop :=
  m.Straight r.id → ∃ br, m.Weighed count config r br

variable {count : UInt32} {ctx : Context} {m : Memory} {e e' : Engine} {x : Change} {n : Int}
variable {p : PositionRecord} {b : BoundStep} {r : RunRecord} {config : FlowConfig} {br : Branch}

theorem Counted.of_eq {m' : Memory} {run : Int} (h : m.Counted count run br)
    (htries : ∀ branch name, m'.tries run branch name = m.tries run branch name)
    (hattempts : m'.attemptsIn run = m.attemptsIn run) : m'.Counted count run br := by
  constructor
  · intro t ht
    rw [htries]
    exact h.digits t ht
  · simp only [htries, hattempts]
    exact h.total

theorem Counted.start {run : Int} (htries : ∀ branch name, m.tries run branch name = 0)
    (hattempts : m.attemptsIn run = []) : m.Counted count run br := by
  constructor
  · intro t _
    rw [htries]
    exact Nat.zero_le _
  · rw [hattempts]
    exact Nat.zero_le _

theorem Bounded.sameLeg {m' : Memory} (hm : m.Sound) (hs : SameLeg m m' r.id)
    (h : m.Bounded count config r) : m'.Bounded count config r := by
  intro hstraight
  obtain ⟨br, hw⟩ := h ⟨hs.attemptsIn ▸ hstraight.replays, hs.positions ▸ hstraight.switches⟩
  refine ⟨br, hw.first, hw.branch, hw.counted.of_eq (hs.tries hm) hs.attemptsIn, ?_, ?_⟩
  · intro p s hlatest hget
    obtain ⟨hlatest, hget, -⟩ := hs.current hm hlatest hget
    rw [hs.findStepRun]
    exact hw.last hlatest hget
  · intro p s t state hstate hgoing hlatest hget ht
    obtain ⟨hlatest, hget, -⟩ := hs.current hm hlatest hget
    rw [hs.tries hm]
    exact hw.room hstate hgoing hlatest hget ht

theorem Unprepared.visitsOf (hu : m.Unprepared config r) : m.visitsOf r.id = [] := by
  apply List.filter_eq_nil_iff.mpr
  intro s hs
  obtain ⟨id, hget⟩ := Table.mem_values_iff.mp hs
  simpa using hu.stepRuns hget

theorem Unprepared.attemptsIn (hu : m.Unprepared config r) : m.attemptsIn r.id = [] := by
  apply List.filter_eq_nil_iff.mpr
  intro a _
  cases hget : m.stepRuns.get? a.stepRun with
  | none => simp
  | some s => simpa using hu.stepRuns hget

theorem Unprepared.tries (hu : m.Unprepared config r) (branch name : String) :
    m.tries r.id branch name = 0 := by
  apply tries_of_none
  rw [findStepRun_eq, hu.visitsOf]
  rfl

theorem Bounded.fresh (hu : m.Unprepared config r) : m.Bounded count config r := by
  intro _
  obtain ⟨br, hfirst, hbranch⟩ := hu.branch
  refine ⟨br, hfirst, hbranch, .start hu.tries hu.attemptsIn, ?_, ?_⟩
  · intro p s hlatest
    rw [latestPosition, hu.positions] at hlatest
    cases hlatest
  · intro p s t state hstate hgoing hlatest
    rw [latestPosition, hu.positions] at hlatest
    cases hlatest

theorem Straight.before {run : Int} (hm : m.Sound) (hfits : x.Fits m n run)
    (h : (m.post x n r).Straight run) :
    m.Straight run ∧ x.marked = none ∧ ∀ a, x.attempt = some a → ¬ a.IsReplay := by
  obtain ⟨hreplays, hswitches⟩ := h
  rw [post_attemptsIn hm hfits] at hreplays
  rw [hfits.positionsOf hm] at hswitches
  have hkept : ∀ p ∈ m.positionsOf run, (x.mark p).branchedOnError = false := fun p hp =>
    hswitches _ (List.mem_append_left _ (List.mem_map_of_mem hp))
  refine ⟨⟨fun a ha => hreplays a (List.mem_append_left _ ha), fun p hp => ?_⟩, ?_, fun a ha => ?_⟩
  · have hp := hkept p hp
    unfold Change.mark at hp
    split at hp
    · cases hp
    · exact hp
  · cases hmarked : x.marked with
    | none => rfl
    | some id =>
      obtain ⟨p, hget, hrun⟩ := hfits.marked hmarked
      have hp := hkept p (mem_positionsOf.mpr ⟨⟨id, hget⟩, hrun⟩)
      simp [Change.mark, hmarked, (hm.positions hget).1] at hp
  · exact hreplays a (List.mem_append_right _ (by simp [ha]))

namespace Weighed
variable (h : m.Weighed count e.config r br) (hr : m.runs.get? e.run.record.id = some r)
include h hr

theorem branch_eq (hseated : e.Seated ctx.registry m p b) : e.run.record.branch = br.name := by
  rw [hseated.held.record_eq hr]
  exact h.branch

variable (hm : m.Sound)
include hm

theorem findStepRun_current (hseated : e.Seated ctx.registry m p b) :
    m.findStepRun e.run.record.id b.stepRun.record.branch b.stepRun.record.name =
      some b.stepRun.record := by
  have hid : r.id = e.run.record.id := (hm.runs hr).1
  have hlast := h.last (hid ▸ hseated.underway.latest) hseated.underway.current
  rw [hid] at hlast
  exact hlast

theorem tries_le (hseated : e.Seated ctx.registry m p b) (hgoing : e.run.state.Going)
    {t : StepTemplate} (ht : e.config.tree.step b.step.branch b.step.name = .ok t) :
    m.tries e.run.record.id b.step.branch b.step.name ≤ t.limit count := by
  have hid : r.id = e.run.record.id := (hm.runs hr).1
  have hstate := hseated.held.state_eq hr
  rw [← hseated.visits.branch, ← hseated.visits.name] at ht ⊢
  have hroom := h.room hstate hgoing (hid ▸ hseated.underway.latest) hseated.underway.current ht
  rw [hid] at hroom
  exact hroom

end Weighed

section Executed
variable {raw : Option String} {ex : StepBehavior.Execution} {w : Way}
variable {answer : Except EngineError Outcome} {a : AttemptRecord}
variable (hm : m.Sound) (hw : e.config.tree.WellFormed ctx.registry)
variable (hr : m.runs.get? e.run.record.id = some r) (h : m.Weighed count e.config r br)
variable (hseated : e.Seated ctx.registry m p b) (hg : e.Goes ctx m b a ex w answer)
variable (ha : a.stepRun = b.stepRun.record.id)
variable (hfits : (w.change m e p a).Fits m n e.run.record.id)
variable (hmarked : (w.change m e p a).marked = none) (r' : RunRecord)
include hm hw hr h hseated hg ha hfits hmarked

/-- The count of the executed step goes up. Any other step keeps its count or starts anew, and a
step on the left of the executed one keeps it. -/
theorem Weighed.tries_executed : ∃ before t rest, br.steps = before ++ t :: rest ∧
    t.name = b.step.name ∧
    (m.post (w.change m e p a) n r').tries e.run.record.id br.name t.name =
      m.tries e.run.record.id br.name t.name + 1 ∧
    (∀ u : StepTemplate, u.name ≠ t.name →
      (m.post (w.change m e p a) n r').tries e.run.record.id br.name u.name =
          m.tries e.run.record.id br.name u.name ∨
        (m.post (w.change m e p a) n r').tries e.run.record.id br.name u.name = 0) ∧
    ∀ u ∈ before, (m.post (w.change m e p a) n r').tries e.run.record.id br.name u.name =
      m.tries e.run.record.id br.name u.name := by
  have hbr : br ∈ e.config.tree.branches := StepTree.firstBranch_mem h.first
  have hon : br.name = b.step.branch := (h.branch_eq hr hseated).symm.trans hseated.branch_eq
  have hattempt : (w.change m e p a).attempt = some a := Way.change_attempt ..
  obtain ⟨before, t, rest, hsteps, htn, henters⟩ := hg.enters hw hseated hmarked hbr hon
  have hother : ∀ u : StepTemplate, u.name ≠ t.name →
      (m.post (w.change m e p a) n r').tries e.run.record.id br.name u.name =
          m.tries e.run.record.id br.name u.name ∨
        (m.post (w.change m e p a) n r').tries e.run.record.id br.name u.name = 0 ∧
          ∃ v, (w.change m e p a).visit = some v ∧ u.name = v.name := by
    intro u hne
    by_cases hvisit : ∃ v, (w.change m e p a).visit = some v ∧ u.name = v.name
    · obtain ⟨v, hv, hname⟩ := hvisit
      have hzero := tries_post_visit (r := r') hm hfits hv
      rw [(henters v hv).1, ← hname] at hzero
      exact .inr ⟨hzero, v, hv, hname⟩
    · refine .inl (tries_post_other hm hfits (fun v hv hsame => hvisit ⟨v, hv, hsame.2.symm⟩) ?_)
      intro a' s ha' hget hsame
      obtain rfl : a = a' := Option.some.inj (hattempt.symm.trans ha')
      obtain ⟨-, -, hcurrent⟩ := hseated.current_run hm
      rw [ha, hcurrent] at hget
      cases hget
      exact hne (hsame.2.symm.trans (hseated.visits.name.trans htn.symm))
  refine ⟨before, t, rest, hsteps, htn, ?_, fun u hne => (hother u hne).imp_right And.left, ?_⟩
  · have hlast := h.findStepRun_current hr hm hseated
    rw [hseated.visits.branch, hseated.visits.name, ← hon, ← htn] at hlast
    refine tries_post_current hm hfits (fun v hv => ?_) hlast hattempt ha
    exact fun hsame => (henters v hv).2.1 hsame.2
  · intro u hu
    have hne : u.name ≠ t.name := by
      have hnames := hw.stepNames br hbr
      rw [hsteps, List.map_append, List.map_cons] at hnames
      exact (List.nodup_append.mp hnames).2.2 _ (List.mem_map_of_mem hu) _ List.mem_cons_self
    rcases hother u hne with hsame | ⟨hzero, v, hv, hname⟩
    · exact hsame
    · rw [hzero]
      exact ((henters v hv).2.2 u hu hname).symm

/-- An attempt raises the number that the counts of the branch form, and keeps them within their
limits. -/
theorem Weighed.executed (hgoing : e.run.state.Going) :
    (m.post (w.change m e p a) n r').Counted count e.run.record.id br := by
  have hid : r.id = e.run.record.id := (hm.runs hr).1
  have hbr : br ∈ e.config.tree.branches := StepTree.firstBranch_mem h.first
  have hon : br.name = b.step.branch := (h.branch_eq hr hseated).symm.trans hseated.branch_eq
  obtain ⟨hdigits, htotal⟩ := h.counted
  rw [hid] at hdigits htotal
  obtain ⟨before, t, rest, hsteps, htn, hraised, hother, hbefore⟩ :=
    h.tries_executed hm hw hr hseated hg ha hfits hmarked r'
  let m' := m.post (w.change m e p a) n r'
  constructor
  · intro u hu
    by_cases hname : u.name = t.name
    · have ht : e.config.tree.step b.step.branch b.step.name = .ok u := by
        rw [← hon, ← htn, ← hname]
        exact hw.step_eq hbr hu
      have hroom := h.tries_le hr hm hseated hgoing ht
      rw [← hon, ← htn] at hroom
      rw [hname, hraised]
      exact Nat.succ_le_succ hroom
    · rcases hother u hname with hsame | hzero
      · rw [hsame]
        exact hdigits u hu
      · rw [hzero]
        exact Nat.zero_le _
  · have hgrows : weigh (fun t => m.tries e.run.record.id br.name t.name) (·.limit count) br.steps <
        weigh (fun t => m'.tries e.run.record.id br.name t.name) (·.limit count) br.steps := by
      rw [hsteps]
      exact weigh_lt_weigh hbefore hraised fun u hu => hdigits u (by simp [hsteps, hu])
    have hone : (m'.attemptsIn e.run.record.id).length =
        (m.attemptsIn e.run.record.id).length + 1 := by
      have hattempt : (w.change m e p a).attempt = some a := Way.change_attempt ..
      rw [post_attemptsIn hm hfits, hattempt]
      simp
    calc (m'.attemptsIn e.run.record.id).length
        = (m.attemptsIn e.run.record.id).length + 1 := hone
      _ ≤ weigh (fun t => m.tries e.run.record.id br.name t.name) (·.limit count) br.steps + 1 :=
        Nat.succ_le_succ htotal
      _ ≤ weigh (fun t => m'.tries e.run.record.id br.name t.name) (·.limit count) br.steps := hgrows

end Executed

section Turned
variable (hm : m.Sound) (hw : e.config.tree.WellFormed ctx.registry)
variable (hr : m.runs.get? e.run.record.id = some r)
variable (hturn : e.Turn ctx.registry m x n e' p b) (hturned : e.Turned ctx m x n e' p b)
variable (h : m.Weighed count e.config r br)
include hm hw hr hturn hturned h

/-- The first step is entered with nothing counted, and a prompt counts nothing. -/
theorem Weighed.counted_post (hmarked : x.marked = none) (r' : RunRecord) :
    (m.post x n r').Counted count e.run.record.id br := by
  have hid : r.id = e.run.record.id := (hm.runs hr).1
  cases hturned with
  | opened stored fresh opened =>
    obtain rfl : _ = r := Option.some.inj (stored.symm.trans hr)
    have hnone : x.attempt = none := by cases opened with | intro => rfl
    refine .start (fun branch name => ?_) ?_
    · by_cases hvisit : ∃ v, x.visit = some v ∧ v.branch = branch ∧ v.name = name
      · obtain ⟨v, hv, rfl, rfl⟩ := hvisit
        exact tries_post_visit hm hturn.fits hv
      · rw [tries_post_other hm hturn.fits (fun v hv hsame => hvisit ⟨v, hv, hsame⟩)
          (by simp [hnone]), ← hid, fresh.tries]
    · rw [post_attemptsIn hm hturn.fits, ← hid, fresh.attemptsIn, hnone]
      rfl
  | played seated played =>
    cases played with
    | prompted =>
      have hcounted := h.counted
      rw [hid] at hcounted
      refine hcounted.of_eq (fun branch name => ?_) ?_
      · refine tries_post_other hm hturn.fits ?_ ?_
        · rintro v ⟨⟩
        · rintro a s ⟨⟩
      · rw [post_attemptsIn hm hturn.fits]
        exact List.append_nil _
    | executed executed goes =>
      exact h.executed hm hw hr seated goes rfl hturn.fits hmarked r'
        (Engine.not_over_of_execution executed)

end Turned

/-- A committed call keeps a straight run within its bounds. -/
theorem Bounded.turned (version : Int) (hm : m.Sound) (hw : e.config.tree.WellFormed ctx.registry)
    (hcount : ctx.settings.defaultRetryCount ≤ count)
    (hr : m.runs.get? e.run.record.id = some r)
    (hrec : m.Recorded ctx.registry e.config e.run.record.id)
    (hturn : e.Turn ctx.registry m x n e' p b) (hturned : e.Turned ctx m x n e' p b)
    (h : m.Bounded count e.config r) :
    (m.post x n (e'.stored version m.clock)).Bounded count e.config
      (e'.stored version m.clock) := by
  intro hstraight
  have hid : r.id = e.run.record.id := (hm.runs hr).1
  have hafter := hturn.seated hm hrec version m.clock
  have hstored : (e'.stored version m.clock).id = e.run.record.id := hturn.same.id
  rw [hstored] at hstraight
  obtain ⟨hbefore, hmarked, hreplays⟩ := hstraight.before hm hturn.fits
  rw [← hid] at hbefore
  obtain ⟨br, hwd⟩ := h hbefore
  have hlast := hturned.findStepRun (r := e'.stored version m.clock) hm hturn.fits
    fun hseated => hwd.findStepRun_current hr hm hseated
  have hbranch : e'.run.record.branch = br.name := hturned.branch_eq hturn hmarked hwd.first
    fun hseated => hwd.branch_eq hr hseated
  refine ⟨br, hwd.first, hbranch, ?_, ?_, ?_⟩
  · rw [hstored]
    exact hwd.counted_post hm hw hr hturn hturned hmarked _
  · intro q s hq hs
    obtain ⟨rfl, rfl⟩ := hafter.eq_of_latest hq hs
    rw [hstored]
    exact hlast
  · intro q s t state hstate hgoing hq hs ht
    obtain ⟨rfl, rfl⟩ := hafter.eq_of_latest hq hs
    obtain rfl : e'.run.state = state := RunState.name_inj hstate
    rw [hstored, tries_of_some hlast, ← hafter.attempts]
    rw [hturn.visits.branch, hturn.visits.name] at ht
    rcases hturned.room hgoing with hroom | ⟨p₀, b₀, hseated, hbefore, hstep, hsame, hreplay⟩
    · exact Nat.le_trans hroom (ctx.budget_le_limit hw hturn.step hcount ht)
    · have hnone : x.attempt = none := by
        cases hattempt : x.attempt with
        | none => rfl
        | some a => exact absurd (hreplay a hattempt).2 (hreplays a hattempt)
      rw [hstep] at ht
      have hroom := hwd.tries_le hr hm hseated hbefore ht
      have hcurrent := hwd.findStepRun_current hr hm hseated
      rw [hseated.visits.branch, hseated.visits.name] at hcurrent
      rw [tries_of_some hcurrent, ← hseated.attempts] at hroom
      rw [hsame, hnone]
      simpa using hroom

theorem Bounded.lasting (count : UInt32) : World.Lasting count (Bounded count) :=
  ⟨Bounded.sameLeg, Bounded.fresh, Bounded.turned⟩

end Memory

namespace World
variable {registry : Registry} {count : UInt32} {w : World}

/-- A run on which no prompt was played again and no branch was switched has made fewer attempts
than the product of the retries of its steps, each and two. -/
theorem attempts_lt_prod (h : GrantsUpTo registry count w) {id : Int} {r : RunRecord}
    (hr : w.store.runs.get? id = some r) (hstraight : w.store.Straight id) :
    ∃ config br, w.catalog.resolve r.configTag = .ok config ∧ config.tree.firstBranch = .ok br ∧
      (w.store.attemptsIn id).length < (br.steps.map fun t => t.limit count + 2).prod := by
  have hsound := h.reachable.sound
  have hid : r.id = id := (hsound.store.runs hr).1
  obtain ⟨config, hconfig, -⟩ := hsound.runs hr
  rw [← hid] at hstraight
  obtain ⟨br, hw⟩ := h.holds (Bounded.lasting count) hr hconfig hstraight
  refine ⟨config, br, hconfig, hw.first, ?_⟩
  have htotal := hw.counted.total
  have hbound := weigh_lt hw.counted.digits
  rw [hid] at htotal hbound
  omega

/-- The caller who was greeted and gave a wrong answer has used two of at most twenty-four
attempts. -/
theorem attempts_lt_prod_reception : ∃ (config : FlowConfig) (br : Branch),
    config.tree.firstBranch = .ok br ∧ (Reception.misdialed.store.attemptsIn 1).length = 2 ∧
      (Reception.misdialed.store.attemptsIn 1).length <
        (br.steps.map fun t => t.limit 3 + 2).prod := by
  have hstored : (Reception.misdialed.store.runs.get? 1).isSome = true := by decide +kernel
  obtain ⟨r, hr⟩ := Option.isSome_iff_exists.mp hstored
  have hkinds : ∀ a ∈ Reception.misdialed.store.attemptsIn 1,
      a.result.field? "kind" ≠ some (.str "replay") := by decide +kernel
  have hstraight : Reception.misdialed.store.Straight 1 := by
    refine ⟨?_, by decide +kernel⟩
    rintro a ha ⟨message, hreplay⟩
    apply hkinds a ha
    rw [hreplay]
    rfl
  obtain ⟨_, br, -, hfirst, hlt⟩ := attempts_lt_prod Reception.grantsUpTo_misdialed hr hstraight
  exact ⟨_, br, hfirst, by decide +kernel, hlt⟩

end World
end CallFlow
