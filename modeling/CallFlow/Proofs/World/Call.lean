import CallFlow.Proofs.Engine.Opening
import CallFlow.Proofs.Flow.Published
import CallFlow.Proofs.World.Basic

/-! # What one call can do

An engine that is in use either holds an older version of its run, and then nothing comes of
its calls, or it holds its run as the store does and is placed nowhere yet or seated. A call is
refused, reads, or is committed as a turn.
-/
namespace CallFlow
open Memory Work

/-- The run was only created, or it is under way in its flow. -/
def Memory.Tracks (m : Memory) (registry : Registry) (config : FlowConfig) (r : RunRecord) :
    Prop :=
  m.Unprepared config r ∨ ∃ state p s, m.Underway registry config ⟨r, state⟩ p s

namespace Engine

structure Admitted (registry : Registry) (flows : FlowSource) (m : Memory) (e : Engine) :
    Prop where
  flow : flows e.run.record.configTag = .ok e.config
  version : ∃ r, m.runs.get? e.run.record.id = some r ∧ e.run.record.version ≤ r.version
  current : ¬ e.Stale m → e.Current m ∧ (e.Waiting ∨ ∃ p b, e.Seated registry m p b)

theorem not_stale {m : Memory} {e : Engine} {r : RunRecord}
    (hr : m.runs.get? e.run.record.id = some r) (hv : r.version = e.run.record.version) :
    ¬ e.Stale m := fun h => h r hr hv

theorem exists_of_not_stale {m : Memory} {e : Engine} (h : ¬ e.Stale m) :
    ∃ r, m.runs.get? e.run.record.id = some r ∧ r.version = e.run.record.version := by
  simpa [Stale] using h

/-- How a committed call of an engine came about: the run entered its first step, or the current
step was played. -/
inductive Turned (ctx : Context) (m : Memory) (e : Engine) (x : Change) (n : Int) (e' : Engine)
    (p' : PositionRecord) (b' : BoundStep) : Prop
  | opened {r} (stored : m.runs.get? e.run.record.id = some r) (fresh : m.Unprepared e.config r)
      (opened : e.Opened ctx.registry m x n e' p' b')
  | played {p b raw answer} (seated : e.Seated ctx.registry m p b)
      (played : e.Played ctx m p b raw answer x n e' p' b')

/-- An attempt is made by an engine that is seated at the step of the attempt, and only while the
run can go on. -/
theorem Turned.attempt {ctx : Context} {m : Memory} {e e' : Engine} {x : Change} {n : Int}
    {p' : PositionRecord} {b' : BoundStep} (h : e.Turned ctx m x n e' p' b') {a : AttemptRecord}
    (ha : x.attempt = some a) : ∃ p b, e.Seated ctx.registry m p b ∧
      a.stepRun = b.stepRun.record.id ∧ e.run.state ≠ .finished ∧ e.run.state ≠ .error := by
  cases h with
  | opened _ _ opened => cases opened with | intro => cases ha
  | @played p b raw answer seated played =>
    refine ⟨p, b, seated, ?_⟩
    cases played with
    | prompted => cases ha
    | executed executed goes =>
      rw [Way.change_attempt] at ha
      cases ha
      exact ⟨rfl, not_over_of_execution executed⟩

inductive Called (ctx : Context) (m : Memory) (e : Engine) : Option Engine × Memory → Prop
  /-- The engine is given up. -/
  | refused {m'} (grows : m.Grows m') : Called ctx m e (none, m')
  | read {e'} (same : e.SameRun e')
      (seated : ¬ e.Stale m → ∃ p b, e'.Seated ctx.registry m p b) : Called ctx m e (some e', m)
  | turned {x n e' p b r} (turn : e.Turn ctx.registry m x n e' p b)
      (stored : m.runs.get? e.run.record.id = some r) (version : r.version = e.run.record.version)
      (turned : e.Turned ctx m x n e' p b) :
      Called ctx m e
        (some (e'.atVersion (r.version + 1)), m.post x n (e'.stored (r.version + 1) m.clock))

variable (ctx : Context) {m : Memory} {e : Engine}

theorem Current.tracks {config : FlowConfig} {registry : Registry} {r : RunRecord}
    (h : e.Current m) (hr : m.runs.get? e.run.record.id = some r)
    (ht : m.Tracks registry config r) :
    (m.Unprepared config r ∧ e.run.state = .uninitialized ∧ e.run.record.branch = r.branch) ∨
      ∃ p s, m.Underway registry config e.run p s := by
  have hsame := h.record_eq hr
  have hinj : ∀ state : RunState, r.state = state.name → e.run.state = state :=
    fun state hstate => RunState.name_inj ((h.state_eq hr).symm.trans hstate)
  rcases ht with hu | ⟨state, p, s, hu⟩
  · exact .inl ⟨hu, hinj _ hu.state, by rw [hsame]⟩
  · obtain rfl := hinj state hu.named
    have hid : e.run.record.id = r.id := by rw [hsame]
    have hbranch : e.run.record.branch = r.branch := by rw [hsame]
    refine .inr ⟨p, s, ⟨hid ▸ hu.recorded, hid ▸ hu.latest, hu.current, hbranch.trans hu.branch,
      hu.unmarked, h.named, hu.settled, hu.prompted, hid ▸ hu.fresh⟩⟩

section Call
variable (hm : m.Sound) (hw : e.config.tree.WellFormed ctx.registry)
variable (he : e.Admitted ctx.registry ctx.flows m)
include hm hw he

omit hm hw he in
/-- An engine that holds an older version takes a seat without changing anything, or is given
up. -/
theorem prepare_called_stale (hs : e.Stale m) :
    e.Called ctx m (e.call ctx m .prepare) := by
  unfold call
  cases hp : m.latestPosition e.run.record.id with
  | some p =>
    obtain ⟨hstore, hsame⟩ := rehydrate_reads ctx (m := m) (e := e) (p := p)
    simp only [prepare_run_some hp]
    rcases hrun : (rehydrate ctx e p).run m with ⟨failure | e', m'⟩ <;>
      rw [hrun] at hstore hsame <;> obtain rfl : m' = m := hstore
    · exact .refused (.refl m')
    · exact .read (hsame e' rfl) fun h => absurd hs h
  | none =>
    by_cases hstate : e.run.state = .uninitialized
    · obtain ⟨hrefused, hgrows⟩ := run_stale (StagesOnly.enterFirst ctx) hs
      simp only [prepare_run_first hp hstate]
      cases hrun : (Work.run (enterFirst ctx) e m).1.1 with
      | ok value =>
        rw [hrun] at hrefused
        exact absurd trivial hrefused
      | error failure => exact .refused hgrows
    · simp only [prepare_run_lost hp hstate]
      exact .refused (.refl m)

theorem prepare_opens (hs : ¬ e.Stale m) {r : RunRecord}
    (hr : m.runs.get? e.run.record.id = some r) (hu : m.Unprepared e.config r) :
    ∃ x n e' p b, (e.prepare ctx).run m =
        (.ok (e'.atVersion (r.version + 1)), m.post x n (e'.stored (r.version + 1) m.clock)) ∧
      r.version = e.run.record.version ∧ e.Opened ctx.registry m x n e' p b ∧
        e.Turn ctx.registry m x n e' p b := by
  obtain ⟨hcurrent, hplace⟩ := he.current hs
  obtain ⟨c, hc, hv⟩ := exists_of_not_stale hs
  obtain rfl : c = r := Option.some.inj (hc.symm.trans hr)
  have hbranch : e.run.record.branch = c.branch := by rw [hcurrent.record_eq hr]
  have hstate : e.run.state = .uninitialized :=
    RunState.name_inj ((hcurrent.state_eq hr).symm.trans hu.state)
  have hposition : e.position = none := by
    rcases hplace with ⟨-, hposition⟩ | ⟨p, b, hseated⟩
    · exact hposition
    · exact absurd hstate hseated.underway.settled.1
  obtain ⟨x, n, e', p, b, hrun, hopened⟩ :=
    prepare_unprepared hm hw hr hu hbranch hposition hstate hv
  exact ⟨x, n, e', p, b, hrun, hv, hopened, hopened.turn hm hr hu hbranch hposition⟩

theorem prepare_called
    (hruns : ∀ {r}, m.runs.get? e.run.record.id = some r → m.Tracks ctx.registry e.config r) :
    e.Called ctx m (e.call ctx m .prepare) := by
  by_cases hs : e.Stale m
  · exact prepare_called_stale ctx hs
  · obtain ⟨hcurrent, -⟩ := he.current hs
    obtain ⟨r, hr, -⟩ := exists_of_not_stale hs
    rcases hcurrent.tracks hr (hruns hr) with ⟨hu, -⟩ | ⟨p, s, hu⟩
    · obtain ⟨x, n, e', p, b, hrun, hv, hopened, hturn⟩ := prepare_opens ctx hm hw he hs hr hu
      unfold call
      simp only [hrun]
      exact .turned hturn hr hv (.opened hr hu hopened)
    · obtain ⟨b, hrun, hseated⟩ := prepare_underway hm hw hcurrent hu
      unfold call
      simp only [hrun]
      exact .read ⟨rfl, rfl, rfl, rfl⟩ fun _ => ⟨p, b, hseated⟩

/-- A call that runs the current step is refused or plays it. -/
theorem runStep_played (raw : Option String) :
    (¬ Committed (e.runStep ctx raw m).1.1 ∧ m.Grows (e.runStep ctx raw m).2) ∨
    ∃ p b answer x n e' p' b' r, e.Seated ctx.registry m p b ∧
      e.Played ctx m p b raw answer x n e' p' b' ∧
      m.runs.get? e.run.record.id = some r ∧ r.version = e.run.record.version ∧
        e.runStep ctx raw m = ((answer, e'.atVersion (r.version + 1)),
          m.post x n (e'.stored (r.version + 1) m.clock)) := by
  by_cases hs : e.Stale m
  · exact .inl (run_stale (StagesOnly.callStep ctx raw) hs)
  · obtain ⟨-, hwaiting | ⟨p, b, hseated⟩⟩ := he.current hs
    · have hrun : e.runStep ctx raw m = _ := run_error (hwaiting.callStep_run ctx m raw) id
      rw [hrun]
      exact .inl ⟨id, .refl m⟩
    · obtain ⟨r, hr, hv⟩ := exists_of_not_stale hs
      have hran := hseated.runStep_ran hm hw hr hv raw
      rcases hrun : e.runStep ctx raw m with ⟨⟨answer, e'⟩, m'⟩
      rw [hrun] at hran
      cases hran with
      | committed played => exact .inr ⟨p, b, _, _, _, _, _, _, r, hseated, played, hr, hv, rfl⟩
      | ended state grows => exact .inl ⟨id, grows⟩
      | refused refusal executed impossible grows => exact .inl ⟨refusal, grows⟩

theorem runStep_cases (raw : Option String) :
    (¬ Committed (e.runStep ctx raw m).1.1 ∧ m.Grows (e.runStep ctx raw m).2) ∨
    ∃ answer x n e' p b r, e.Turn ctx.registry m x n e' p b ∧ e'.Answered b answer ∧
      m.runs.get? e.run.record.id = some r ∧ r.version = e.run.record.version ∧
        e.runStep ctx raw m = ((answer, e'.atVersion (r.version + 1)),
          m.post x n (e'.stored (r.version + 1) m.clock)) := by
  rcases runStep_played ctx hm hw he raw with
    hrefused | ⟨p, b, answer, x, n, e', p', b', r, hseated, hplayed, hr, hv, hrun⟩
  · exact .inl hrefused
  · obtain ⟨hturn, hanswered⟩ := hplayed.turn hm hw hseated
    exact .inr ⟨answer, x, n, e', p', b', r, hturn, hanswered, hr, hv, hrun⟩

theorem run_called (raw : Option String) : e.Called ctx m (e.call ctx m (.run raw)) := by
  unfold call
  rcases runStep_played ctx hm hw he raw with
    ⟨hrefused, hgrows⟩ | ⟨p, b, answer, x, n, e', p', b', r, hseated, hplayed, hr, hv, hrun⟩
  · simp only [kept_of_not_committed hrefused]
    exact .refused hgrows
  · obtain ⟨hturn, hanswered⟩ := hplayed.turn hm hw hseated
    simp only [hrun, kept_of_committed hanswered.committed]
    exact .turned hturn hr hv (.played hseated hplayed)

end Call
end Engine
end CallFlow
