import CallFlow.Proofs.Store.Change

/-! # The last visit to a step

The attempts that count against a budget are those of the last visit of a run to a step. A new
visit starts at none, an attempt raises the count of the step that it was made at by one, and the
counts of all other steps stay.
-/
namespace CallFlow.Memory
variable {m : Memory} {x : Change} {next run : Int} {r : RunRecord} {branch name : String}

def tries (m : Memory) (run : Int) (branch name : String) : Nat :=
  match m.findStepRun run branch name with
  | some s => (m.attemptsOf s.id).length
  | none => 0

theorem tries_of_none (h : m.findStepRun run branch name = none) : m.tries run branch name = 0 := by
  simp only [tries, h]

theorem tries_of_some {s : StepRunRecord} (h : m.findStepRun run branch name = some s) :
    m.tries run branch name = (m.attemptsOf s.id).length := by
  simp only [tries, h]

theorem SameLeg.tries {m' : Memory} {leg : Int} (hm : m.Sound) (h : SameLeg m m' leg)
    (branch name : String) : m'.tries leg branch name = m.tries leg branch name := by
  cases hfound : m.findStepRun leg branch name with
  | none => rw [tries_of_none hfound, tries_of_none ((h.findStepRun branch name).trans hfound)]
  | some s =>
    obtain ⟨hget, hrun, -⟩ := hm.findStepRun hfound
    rw [tries_of_some hfound, tries_of_some ((h.findStepRun branch name).trans hfound),
      h.attempts hget hrun]

section Post
variable (hm : m.Sound) (hx : x.Fits m next run)
include hm hx

theorem findStepRun_post_visit {v : StepRunRecord} (hv : x.visit = some v) :
    (m.post x next r).findStepRun run v.branch v.name = some v := by
  obtain ⟨-, -, hrun⟩ := hx.visit hv
  rw [findStepRun_eq, post_visitsOf hm hx]
  simp [hv, hrun]

theorem findStepRun_post
    (hv : ∀ v, x.visit = some v → ¬ (v.branch = branch ∧ v.name = name)) :
    (m.post x next r).findStepRun run branch name = m.findStepRun run branch name := by
  have hnone : (x.visit.toList.filter (·.run = run)).filter
      (fun s => s.branch = branch && s.name = name) = [] := by
    apply List.filter_eq_nil_iff.mpr
    intro v hmem
    have hnot := hv v (Option.mem_toList.mp (List.mem_filter.mp hmem).1)
    simpa using hnot
  rw [findStepRun_eq, findStepRun_eq, post_visitsOf hm hx, List.filter_append, hnone,
    List.append_nil]

theorem tries_post_visit {v : StepRunRecord} (hv : x.visit = some v) :
    (m.post x next r).tries run v.branch v.name = 0 := by
  rw [tries_of_some (findStepRun_post_visit hm hx hv), attemptsOf_post_visit hm hx hv]
  rfl

/-- A step that is neither entered nor executed keeps its count. -/
theorem tries_post_other
    (hv : ∀ v, x.visit = some v → ¬ (v.branch = branch ∧ v.name = name))
    (ha : ∀ a s, x.attempt = some a → m.stepRuns.get? a.stepRun = some s →
      ¬ (s.branch = branch ∧ s.name = name)) :
    (m.post x next r).tries run branch name = m.tries run branch name := by
  have hfind := findStepRun_post (r := r) hm hx hv
  cases hfound : m.findStepRun run branch name with
  | none => rw [tries_of_none hfound, tries_of_none (hfind.trans hfound)]
  | some s =>
    obtain ⟨hget, -, hbranch, hname⟩ := hm.findStepRun hfound
    have hnone : x.attempt.toList.filter (·.stepRun = s.id) = [] := by
      apply List.filter_eq_nil_iff.mpr
      intro a hmem hid
      have hid : a.stepRun = s.id := by simpa using hid
      exact ha a s (Option.mem_toList.mp hmem) (hid ▸ hget) ⟨hbranch, hname⟩
    rw [tries_of_some hfound, tries_of_some (hfind.trans hfound), post_attemptsOf hm hx, hnone,
      List.append_nil]

theorem tries_post_current {s : StepRunRecord} {a : AttemptRecord}
    (hv : ∀ v, x.visit = some v → ¬ (v.branch = branch ∧ v.name = name))
    (hs : m.findStepRun run branch name = some s) (ha : x.attempt = some a)
    (hid : a.stepRun = s.id) :
    (m.post x next r).tries run branch name = m.tries run branch name + 1 := by
  have hfind := findStepRun_post (r := r) hm hx hv
  rw [tries_of_some hs, tries_of_some (hfind.trans hs), post_attemptsOf hm hx, ha]
  simp [hid]

end Post
end CallFlow.Memory
