import CallFlow.Proofs.World.Deployed

/-! # Retries stay within the budget

A retry is tested against the step that it leads to, and a run can come back to a step run from
other steps. Still no step run gets more failed attempts than the budget of its step and one,
because a run that can go on stands at a step run with room for one more failure.
-/
namespace CallFlow
open Memory

def AttemptRecord.IsReplay (a : AttemptRecord) : Prop :=
  ∃ message, a.result = (StepResult.replay message).toJson

def RunState.Going (state : RunState) : Prop := state ≠ .finished ∧ state ≠ .error

namespace Engine
variable {ctx : Context} {m : Memory} {e e' : Engine} {p' : PositionRecord} {b b' : BoundStep}
variable {a : AttemptRecord} {x : StepBehavior.Execution} {w : Way} {c : Change} {n : Int}
variable {answer : Except EngineError Outcome}

/-- The step that a run goes on at has room for one more attempt, or its prompt is played again. -/
theorem Goes.room (h : e.Goes ctx m b a x w answer)
    (hgoing : (w.engine m e b a x).run.state.Going) :
    (w.step m e b a).stepRun.attempts.length ≤ ctx.budget (w.step m e b a).step ∨
      w.step m e b a = ⟨b.step, b.stepRun.push a⟩ ∧ ∃ message, x.outcome = .ok (.replay message) := by
  cases h with
  | replay outcome => exact .inr ⟨rfl, _, outcome⟩
  | queue => exact absurd rfl hgoing.1
  | exit => exact absurd rfl hgoing.1
  | last => exact absurd rfl hgoing.2
  | stop => exact absurd rfl hgoing.2
  | deadEnd => exact absurd rfl hgoing.2
  | next => exact .inl (Nat.zero_le _)
  | first => exact .inl (Nat.zero_le _)
  | switch => exact .inl (Nat.zero_le _)
  | retry outcome retryable self budget =>
    left
    show (b.stepRun.attempts ++ [a]).length ≤ ctx.budget b.step
    rw [List.length_append, List.length_singleton]
    exact budget
  | reset outcome retryable targets found budget =>
    rw [tries_of_some found] at budget
    exact .inl (Nat.le_of_lt budget)

/-- After a committed call that leaves the run going, its step has room for one more attempt, or
it is the step from before, with at most a replay more. -/
theorem Turned.room (h : e.Turned ctx m c n e' p' b') (hgoing : e'.run.state.Going) :
    b'.stepRun.attempts.length ≤ ctx.budget b'.step ∨
      ∃ p b, e.Seated ctx.registry m p b ∧ e.run.state.Going ∧ b'.step = b.step ∧
        b'.stepRun.attempts = b.stepRun.attempts ++ c.attempt.toList ∧
        ∀ a, c.attempt = some a → a.failed = false ∧ a.IsReplay := by
  cases h with
  | opened _ _ opened => cases opened with | intro => exact .inl (Nat.zero_le _)
  | @played p b raw answer seated played =>
    cases played with
    | prompted prompts =>
      have hgoing : e.run.state.Going := by
        rcases prompts.state with hs | hs <;> rw [hs] <;> exact ⟨nofun, nofun⟩
      exact .inr ⟨_, _, seated, hgoing, rfl, (List.append_nil _).symm, nofun⟩
    | @executed x w answer executed goes =>
      rcases goes.room hgoing with hroom | ⟨hstep, message, hout⟩
      · exact .inl hroom
      · refine .inr ⟨p, b, seated, not_over_of_execution executed, by rw [hstep], ?_, ?_⟩
        · rw [hstep, Way.change_attempt]
          rfl
        · intro a ha
          rw [Way.change_attempt] at ha
          cases ha
          refine ⟨?_, message, ?_⟩
          · simp [BoundStep.newAttempt, NewAttempt.toRecord, StepEngine.newAttempt, hout]
          · simp [BoundStep.newAttempt, NewAttempt.toRecord, StepEngine.newAttempt,
              StepEngine.recordedResult, hout]

end Engine

namespace Memory

def failures (m : Memory) (stepRun : Int) : Nat := (m.attemptsOf stepRun).countP (·.failed)

/-- No step run of the run has more failures than its step may have, and the one that the run can
go on at has one less. -/
structure WithinBudget (count : UInt32) (m : Memory) (config : FlowConfig) (r : RunRecord) :
    Prop where
  visits : ∀ {id s t}, m.stepRuns.get? id = some s → s.run = r.id →
    config.tree.step s.branch s.name = .ok t → m.failures id ≤ t.limit count + 1
  current : ∀ {p s t} {state : RunState}, r.state = state.name → state.Going →
    m.latestPosition r.id = some p → m.stepRuns.get? p.stepRun = some s →
      config.tree.step s.branch s.name = .ok t → m.failures p.stepRun ≤ t.limit count

namespace WithinBudget
variable {count : UInt32} {ctx : Context} {m : Memory} {e e' : Engine} {x : Change} {n : Int}
variable {p : PositionRecord} {b : BoundStep} {r : RunRecord} {config : FlowConfig}

theorem sameLeg {m' : Memory} (hm : m.Sound) (hs : SameLeg m m' r.id)
    (h : m.WithinBudget count config r) : m'.WithinBudget count config r := by
  have hfailures : ∀ {id s}, m.stepRuns.get? id = some s → s.run = r.id →
      m'.failures id = m.failures id := by
    intro id s hget hrun
    unfold failures
    rw [hs.attempts hget hrun]
  constructor
  · intro id s t hget hrun ht
    have hget := (hs.stepRuns hrun).mp hget
    rw [hfailures hget hrun]
    exact h.visits hget hrun ht
  · intro p s t state hstate hgoing hlatest hget ht
    obtain ⟨hlatest, hget, hrun⟩ := hs.current hm hlatest hget
    rw [hfailures hget hrun]
    exact h.current hstate hgoing hlatest hget ht

theorem fresh (hu : m.Unprepared config r) : m.WithinBudget count config r := by
  constructor
  · exact fun hget hrun => absurd hrun (hu.stepRuns hget)
  · intro p s t state hstate hgoing hlatest
    rw [latestPosition, hu.positions] at hlatest
    cases hlatest

theorem seated (hm : m.Sound) (hr : m.runs.get? e.run.record.id = some r)
    (h : m.WithinBudget count e.config r) (hseated : e.Seated ctx.registry m p b)
    (hgoing : e.run.state.Going) {t : StepTemplate}
    (ht : e.config.tree.step b.step.branch b.step.name = .ok t) :
    b.stepRun.attempts.countP (·.failed) ≤ t.limit count := by
  have hid : r.id = e.run.record.id := (hm.runs hr).1
  have hstate := hseated.held.state_eq hr
  obtain ⟨-, hcurrent, -⟩ := hseated.current_run hm
  rw [← hseated.visits.branch, ← hseated.visits.name] at ht
  have hlatest : m.latestPosition r.id = some p := hid ▸ hseated.underway.latest
  have hroom := h.current hstate hgoing hlatest hseated.underway.current ht
  rw [hcurrent] at hroom
  rw [hseated.attempts]
  exact hroom

section Turned
variable (version : Int) (hm : m.Sound) (hw : e.config.tree.WellFormed ctx.registry)
variable (hcount : ctx.settings.defaultRetryCount ≤ count)
variable (hr : m.runs.get? e.run.record.id = some r)
variable (hrec : m.Recorded ctx.registry e.config e.run.record.id)
variable (hturn : e.Turn ctx.registry m x n e' p b) (hturned : e.Turned ctx m x n e' p b)
variable (h : m.WithinBudget count e.config r)
include hm hr hturn hturned h

/-- A step run that gets a failure had room for it. -/
theorem visits_turned {id : Int} {s : StepRunRecord} {t : StepTemplate}
    (hget : (m.post x n (e'.stored version m.clock)).stepRuns.get? id = some s)
    (hrun : s.run = r.id) (ht : e.config.tree.step s.branch s.name = .ok t) :
    (m.post x n (e'.stored version m.clock)).failures id ≤ t.limit count + 1 := by
  rcases (post_stepRuns_get? hm hturn.fits).mp hget with hold | ⟨hvisit, rfl⟩
  · unfold failures
    rw [post_attemptsOf hm hturn.fits, List.countP_append]
    by_cases hnone : x.attempt.toList.filter (·.stepRun = id) = []
    · rw [hnone]
      exact h.visits hold hrun ht
    · -- the attempt was made here, where there was room for it
      obtain ⟨a, hmem⟩ := List.exists_mem_of_ne_nil _ hnone
      obtain ⟨hmem, hstep⟩ := List.mem_filter.mp hmem
      have ha : x.attempt = some a := Option.mem_toList.mp hmem
      have hstep : a.stepRun = id := by simpa using hstep
      obtain ⟨p₀, b₀, hseated, hat, hgoing⟩ := hturned.attempt ha
      obtain ⟨-, -, hget₀⟩ := hseated.current_run hm
      obtain rfl : id = b₀.stepRun.record.id := hstep.symm.trans hat
      obtain rfl : b₀.stepRun.record = s := Option.some.inj (hget₀.symm.trans hold)
      rw [hseated.visits.branch, hseated.visits.name] at ht
      have hroom := h.seated hm hr hseated hgoing ht
      rw [hseated.attempts] at hroom
      have hone : (x.attempt.toList.filter (·.stepRun = b₀.stepRun.record.id)).countP (·.failed)
          ≤ 1 := by
        refine Nat.le_trans List.countP_le_length (Nat.le_trans (List.length_filter_le _ _) ?_)
        rw [ha]
        exact Nat.le_refl _
      omega
  · unfold failures
    rw [attemptsOf_post_visit hm hturn.fits hvisit]
    exact Nat.zero_le _

include hw hcount

theorem room_turned (hgoing : e'.run.state.Going) {t : StepTemplate}
    (ht : e.config.tree.step b.step.branch b.step.name = .ok t) :
    b.stepRun.attempts.countP (·.failed) ≤ t.limit count := by
  rcases hturned.room hgoing with hroom | ⟨p₀, b₀, hseated, hbefore, hstep, hsame, hreplay⟩
  · have hbudget := ctx.budget_le_limit hw hturn.step hcount ht
    have hfailed : b.stepRun.attempts.countP (·.failed) ≤ b.stepRun.attempts.length :=
      List.countP_le_length
    omega
  · rw [hstep] at ht
    have hroom := h.seated hm hr hseated hbefore ht
    have hnone : x.attempt.toList.countP (·.failed) = 0 := by
      apply List.countP_eq_zero.mpr
      intro a ha
      rw [(hreplay a (Option.mem_toList.mp ha)).1]
      exact Bool.false_ne_true
    rw [hsame, List.countP_append, hnone]
    exact hroom

include hrec in
theorem turned : (m.post x n (e'.stored version m.clock)).WithinBudget count e.config
    (e'.stored version m.clock) := by
  have hid : r.id = e.run.record.id := (hm.runs hr).1
  have hafter := hturn.seated hm hrec version m.clock
  constructor
  · intro id s t hget hrun ht
    exact h.visits_turned version hm hr hturn hturned hget
      (hrun.trans (hturn.same.id.trans hid.symm)) ht
  · intro q s t state hstate hgoing hlatest hget ht
    have hstate : e'.run.state = state := RunState.name_inj hstate
    obtain ⟨rfl, rfl⟩ := hafter.eq_of_latest hlatest hget
    rw [hturn.visits.branch, hturn.visits.name] at ht
    have hsound := hm.post (r := e'.stored version m.clock) hturn.fits hturn.same.id hr
    obtain ⟨-, hcurrent, -⟩ := hafter.current_run hsound
    unfold failures
    rw [hcurrent, ← hafter.attempts]
    exact h.room_turned hm hw hcount hr hturn hturned (hstate ▸ hgoing) ht

end Turned

theorem lasting (count : UInt32) : World.Lasting count (WithinBudget count) :=
  ⟨sameLeg, fresh, turned⟩

end WithinBudget
end Memory

namespace World
variable {registry : Registry} {count : UInt32} {w : World}

/-- No step run has more failed attempts than the retries of its step and one, however often and
from wherever the run came back to it. -/
theorem failed_attempts_le (h : GrantsUpTo registry count w) {id : Int} {s : StepRunRecord}
    (hs : w.store.stepRuns.get? id = some s) :
    ∃ r config t, w.store.runs.get? s.run = some r ∧ w.catalog.resolve r.configTag = .ok config ∧
      config.tree.step s.branch s.name = .ok t ∧ w.store.failures id ≤ t.limit count + 1 := by
  have hsound := h.reachable.sound
  obtain ⟨-, -, r, hr⟩ := hsound.store.stepRuns hs
  obtain ⟨config, hconfig, htracks⟩ := hsound.runs hr
  have hrec := htracks.recorded hsound.store hr
  obtain ⟨step, hstep, hvisits⟩ := hrec.built hs rfl
  obtain ⟨_, t, hfrom⟩ := hstep.builtFrom
  have ht := hfrom.found (hsound.flows hconfig)
  rw [← hvisits.branch, ← hvisits.name] at ht
  have hwithin := h.holds (WithinBudget.lasting count) hr hconfig
  exact ⟨r, config, t, hr, hconfig, ht, hwithin.visits hs (hsound.store.runs hr).1.symm ht⟩

/-- The first wrong answer is a failure on the question, and it is within the budget. -/
theorem failed_attempts_le_reception : ∃ (config : FlowConfig) (t : StepTemplate),
    config.tree.step "desk" "account" = .ok t ∧ Reception.misdialed.store.failures 5 = 1 ∧
      Reception.misdialed.store.failures 5 ≤ t.limit 3 + 1 := by
  have hnamed : (Reception.misdialed.store.stepRuns.get? 5).map (fun s => (s.branch, s.name)) =
      some ("desk", "account") := by decide +kernel
  obtain ⟨s, hs, hname⟩ := Option.map_eq_some_iff.mp hnamed
  obtain ⟨hbranch, hname⟩ := Prod.mk.inj hname
  obtain ⟨r, config, t, -, -, ht, hle⟩ := failed_attempts_le Reception.grantsUpTo_misdialed hs
  rw [hbranch, hname] at ht
  exact ⟨config, t, ht, by decide +kernel, hle⟩

end World
end CallFlow
