import CallFlow.Proofs.Run.History

/-! # How a history goes on

What a unit of work recorded leads to a position and to a step run there. Committed, it makes
them the run's last position and its current step run, with all the attempts made on it.
-/
namespace CallFlow
open Memory

/-- A change leaves the run where it is, takes it back to a step run that it has, or enters
a new one. -/
inductive Change.Leads (m : Memory) (run : Int) (x : Change) (p : PositionRecord) (s : StepRun) :
    Prop
  | stay (marked : x.marked = none) (visit : x.visit = none) (position : x.position = none)
      (latest : m.latestPosition run = some p) (current : m.stepRuns.get? p.stepRun = some s.record)
      (attempt : ∀ a, x.attempt = some a → a.stepRun = s.record.id)
      (attempts : s.attempts = m.attemptsOf s.record.id ++ x.attempt.toList)
  | back (visit : x.visit = none) (position : x.position = some p)
      (order : p.order = (m.positionsOf run).length + 1)
      (current : m.stepRuns.get? p.stepRun = some s.record)
      (attempt : ∀ a, x.attempt = some a → a.stepRun ≠ s.record.id)
      (attempts : s.attempts = m.attemptsOf s.record.id)
  | enter (visit : x.visit = some s.record) (position : x.position = some p)
      (order : p.order = (m.positionsOf run).length + 1)
      (current : p.stepRun = s.record.id)
      (attempts : s.attempts = [])

/-- The positions afterwards are the ones before, perhaps with one more. -/
theorem Change.Fits.positionsOf {m : Memory} {x : Change} {next run : Int} {r : RunRecord}
    (hm : m.Sound) (hx : x.Fits m next run) : (m.post x next r).positionsOf run =
      (m.positionsOf run).map x.mark ++ x.position.toList := by
  rw [post_positionsOf hm hx]
  congr 1
  apply List.filter_eq_self.mpr
  intro q hq
  obtain ⟨-, -, hrun, -⟩ := hx.position (Option.mem_toList.mp hq)
  exact decide_eq_true hrun

theorem Memory.mem_positionsOf_post {m : Memory} {x : Change} {next run : Int} {r : RunRecord}
    {q : PositionRecord} (hm : m.Sound) (hx : x.Fits m next run) :
    q ∈ (m.post x next r).positionsOf run ↔
      (∃ p ∈ m.positionsOf run, x.mark p = q) ∨ x.position = some q := by
  rw [hx.positionsOf hm, List.mem_append, List.mem_map, Option.mem_toList]

namespace Change.Leads
variable {m : Memory} {x : Change} {next run : Int} {r : RunRecord}
variable {p : PositionRecord} {s : StepRun}
variable (hm : m.Sound) (hx : x.Fits m next run) (h : x.Leads m run p s)
include hm hx h

omit hm hx in
theorem order (hp : x.position = some p) : p.order = (m.positionsOf run).length + 1 := by
  cases h with
  | stay _ _ position => simp [hp] at position
  | back _ _ order => exact order
  | enter _ _ order => exact order

omit hm hx in
theorem position_eq {q : PositionRecord} (hq : x.position = some q) : q = p := by
  cases h with
  | stay _ _ position => simp [hq] at position
  | back _ position => exact Option.some.inj (hq.symm.trans position)
  | enter _ position => exact Option.some.inj (hq.symm.trans position)

omit hm hx in
theorem visit_eq {v : StepRunRecord} (hv : x.visit = some v) : v = s.record := by
  cases h with
  | stay _ visit => simp [hv] at visit
  | back visit => simp [hv] at visit
  | enter visit => exact Option.some.inj (hv.symm.trans visit)

theorem latest : (m.post x next r).latestPosition run = some p := by
  rw [latestPosition, hx.positionsOf hm]
  cases h with
  | stay marked _ position latest =>
    have hmark : (m.positionsOf run).map x.mark = m.positionsOf run := by
      refine (List.map_congr_left fun q _ => ?_).trans (List.map_id _)
      simp [mark, marked]
    rw [hmark, position, Option.toList_none, List.append_nil]
    exact latest
  | back _ position => simp [position]
  | enter _ position => simp [position]

theorem current : (m.post x next r).stepRuns.get? p.stepRun = some s.record := by
  rw [post_stepRuns_get? hm hx]
  cases h with
  | stay _ _ _ _ current => exact .inl current
  | back _ _ _ current => exact .inl current
  | enter visit _ _ current => exact .inr ⟨visit, current.symm⟩

theorem attempts : s.attempts = (m.post x next r).attemptsOf s.record.id := by
  rw [post_attemptsOf hm hx]
  cases h with
  | stay _ _ _ _ _ attempt attempts =>
    have hkept : x.attempt.toList.filter (·.stepRun = s.record.id) = x.attempt.toList := by
      apply List.filter_eq_self.mpr
      exact fun a ha => decide_eq_true (attempt a (Option.mem_toList.mp ha))
    rw [hkept, attempts]
  | back _ _ _ _ attempt attempts =>
    have hnone : x.attempt.toList.filter (·.stepRun = s.record.id) = [] := by
      apply List.filter_eq_nil_iff.mpr
      exact fun a ha => by simpa using attempt a (Option.mem_toList.mp ha)
    rw [hnone, List.append_nil, attempts]
  | enter visit _ _ _ attempts =>
    have hnone := attemptsOf_post_visit (r := r) hm hx visit
    rw [post_attemptsOf hm hx] at hnone
    rw [hnone, attempts]

/-- Whatever a unit of work does, its run's records are a history afterwards. -/
theorem recorded {registry : Registry} {config : FlowConfig}
    (hrec : m.Recorded registry config run)
    (hv : ∀ v, x.visit = some v → ∃ step, config.HasStep registry step ∧ v.Visits step) :
    (m.post x next r).Recorded registry config run := by
  have hpositions := hx.positionsOf (r := r) hm
  have hkept : ∀ {id v}, m.stepRuns.get? id = some v →
      (m.post x next r).stepRuns.get? id = some v :=
    fun hget => (post_stepRuns_get? hm hx).mpr (.inl hget)
  constructor
  · rw [hpositions, List.map_append, List.map_map, List.length_append, List.length_map]
    have hsame : (m.positionsOf run).map ((·.order) ∘ x.mark) =
        (m.positionsOf run).map (·.order) := by
      simp [Function.comp_def]
    rw [hsame, hrec.orders]
    cases hp : x.position with
    | none => simp
    | some q =>
      obtain rfl := h.position_eq hp
      simp [List.range_succ, h.order hp]
  · intro q hq
    rw [hpositions] at hq
    rcases List.mem_append.mp hq with hq | hq
    · obtain ⟨q', hq', rfl⟩ := List.mem_map.mp hq
      obtain ⟨v, hget, hrun⟩ := hrec.joined q' hq'
      exact ⟨v, by rw [mark_stepRun]; exact hkept hget, hrun⟩
    · obtain ⟨-, -, -, -, v, hget, hrun⟩ := hx.position (Option.mem_toList.mp hq)
      exact ⟨v, (post_stepRuns_get? hm hx).mpr hget, hrun⟩
  · intro id v hget hrun
    rw [hpositions]
    rcases (post_stepRuns_get? hm hx).mp hget with hget | ⟨hvisit, rfl⟩
    · obtain ⟨q, hq, rfl⟩ := hrec.visited hget hrun
      exact ⟨x.mark q, List.mem_append_left _ (List.mem_map_of_mem hq), mark_stepRun x q⟩
    · cases h with
      | stay _ visit => simp [hvisit] at visit
      | back visit => simp [hvisit] at visit
      | enter visit position _ current =>
        obtain rfl : v = s.record := Option.some.inj (hvisit.symm.trans visit)
        exact ⟨p, List.mem_append_right _ (by simp [position]), current⟩
  · intro id v hget hrun
    rcases (post_stepRuns_get? hm hx).mp hget with hget | ⟨hvisit, -⟩
    · exact hrec.built hget hrun
    · exact hv v hvisit

end Change.Leads
end CallFlow
