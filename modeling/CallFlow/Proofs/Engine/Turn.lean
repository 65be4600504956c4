import CallFlow.Proofs.Engine.Seated

/-! # The turns of a seated engine

Where the flow is well-formed and the engine is seated, no look-up of a call fails and no
trigger is fired out of turn. So a call leads to a next step, to an exit or to the end of the
run, unless the executed step itself asks for what cannot be given to it.
-/
namespace CallFlow
open Memory Work

/-! ## Looking ahead -/

/-- The step after a named one is built from the template that stands right after it. -/
theorem Branch.following_eq_ok {b : Branch} {registry : Registry} {name : String} {step : Step}
    (h : b.following registry (some name) = .ok step) : ∃ before t t' rest,
      b.steps = before ++ t :: t' :: rest ∧ t.name = name ∧
        step.Built registry t' b.name := by
  unfold following indexAfter at h
  cases hi : b.position? name with
  | none => simp [hi] at h
  | some i =>
    simp only [hi] at h
    cases ht' : b.steps[i + 1]? with
    | none => simp [ht'] at h
    | some t' =>
      simp only [ht'] at h
      obtain ⟨hlt', rfl⟩ := List.getElem?_eq_some_iff.mp ht'
      obtain ⟨hlt, hname, -⟩ := List.findIdx?_eq_some_iff_getElem.mp hi
      refine ⟨b.steps.take i, b.steps[i], b.steps[i + 1], b.steps.drop (i + 2), ?_,
        by simpa using hname, Step.ofTemplate_eq_ok.mp (mapError_eq_ok.mp h)⟩
      rw [List.getElem_cons_drop, List.getElem_cons_drop, List.take_append_drop]

section Following
variable {config : FlowConfig} {registry : Registry} {b : Branch}
variable (hw : config.tree.WellFormed registry) (hb : b ∈ config.tree.branches)
include hw hb

/-- After a step of the branch comes a step of the branch, unless it was the last one. -/
theorem Branch.following_cases {last : Option String}
    (hl : ∀ name, last = some name → ∃ t ∈ b.steps, t.name = name) :
    (∃ step, b.following registry last = .ok step ∧ config.HasStep registry step ∧
      step.branch = b.name) ∨
    b.following registry last =
      .error (.unrecoverable b.name (last.getD "") .branchExhausted) := by
  have hindex : ∃ i, indexAfter b last = .ok i := by
    cases last with
    | none => exact ⟨0, rfl⟩
    | some name =>
      obtain ⟨t, ht, rfl⟩ := hl name rfl
      obtain ⟨i, hi⟩ := List.getElem?_of_mem ht
      exact ⟨i + 1, by simp only [indexAfter, hw.position?_eq hb hi]⟩
  obtain ⟨i, hi⟩ := hindex
  unfold following
  rw [hi]
  cases ht : b.steps[i]? with
  | none => exact .inr (by simp only [ht])
  | some t =>
    have hmem := List.mem_of_getElem? ht
    obtain ⟨step, hstep⟩ := hw.exists_built hb hmem
    refine .inl ⟨step, ?_, ⟨b, hb, t, hmem, hstep⟩, hstep.branch⟩
    simp only [ht, Step.ofTemplate_eq_ok.mpr hstep]
    rfl

theorem lastOn_mem {m : Memory} {run : Int} (hrec : m.Recorded registry config run) {name : String}
    (h : lastOn b.name (m.historyOf run) = some name) : ∃ t ∈ b.steps, t.name = name := by
  obtain ⟨entry, hfind, rfl⟩ := Option.map_eq_some_iff.mp h
  have hbranch : entry.stepRun.branch = b.name := by simpa using List.find?_some hfind
  have hmem := List.mem_reverse.mp (List.mem_of_find?_eq_some hfind)
  obtain ⟨p, hp, hentry⟩ := List.mem_filterMap.mp hmem
  obtain ⟨s, hs, rfl⟩ := Option.map_eq_some_iff.mp hentry
  obtain ⟨s', hs', hrun⟩ := hrec.joined p hp
  obtain rfl : s' = s := Option.some.inj (hs'.symm.trans hs)
  obtain ⟨step, hstep, hvisits⟩ := hrec.built hs hrun
  have hfound : config.tree.branch step.branch = .ok b := by
    rw [← hvisits.branch, hbranch]
    exact hw.branch_eq hb
  obtain ⟨t, hfrom⟩ := hstep.builtFrom_branch hw hfound
  exact ⟨t, hfrom.template, hfrom.name.trans hvisits.name.symm⟩

end Following

namespace Engine
variable {ctx : Context} {m : Memory} {e f : Engine} {p : PositionRecord} {b : BoundStep}
variable {a : AttemptRecord}

namespace Seated
variable (hm : m.Sound) (h : e.Seated ctx.registry m p b)
include hm h

theorem current_run : b.stepRun.record.run = e.run.record.id ∧
    p.stepRun = b.stepRun.record.id ∧
      m.stepRuns.get? b.stepRun.record.id = some b.stepRun.record :=
  h.underway.current_run hm

omit hm in
/-- An engine is seated at one position and one step run. -/
theorem eq_of_latest {q : PositionRecord} {s : StepRunRecord}
    (hq : m.latestPosition e.run.record.id = some q) (hs : m.stepRuns.get? q.stepRun = some s) :
    q = p ∧ s = b.stepRun.record := by
  obtain rfl : q = p := Option.some.inj (hq.symm.trans h.underway.latest)
  exact ⟨rfl, Option.some.inj (hs.symm.trans h.underway.current)⟩

omit hm in
theorem nextOrder_eq (he : f.position = some p) :
    f.nextOrder = (m.positionsOf e.run.record.id).length + 1 := by
  simp only [nextOrder, he, Option.map_some, Option.getD_some,
    h.underway.recorded.order_latest h.underway.latest]

omit hm in
theorem hasOrder_next (hid : f.run.record.id = e.run.record.id) (he : f.position = some p) :
    m.hasOrder f.run.record.id f.nextOrder = false := by
  rw [hid, h.nextOrder_eq he]
  refine hasOrder_eq_false fun q hq => ?_
  have hle := h.underway.recorded.order_le hq
  omega

omit hm in
theorem contains_run (hid : f.run.record.id = e.run.record.id) :
    m.runs.contains f.run.record.id = true := by
  obtain ⟨r, hr, -⟩ := h.held.stored
  rw [hid]
  exact Table.contains_of_get? hr

theorem contains_position : m.positions.contains p.id = true :=
  Table.contains_of_get? (hm.position_get? (latestPosition_mem h.underway.latest))

omit hm in
theorem branch_eq : e.run.record.branch = b.step.branch :=
  h.underway.branch.trans h.visits.branch

/-- On the branch of the current step no other step was visited since. -/
theorem lastOn_eq : lastOn b.step.branch (m.historyOf e.run.record.id) = some b.step.name := by
  obtain ⟨-, -, hget⟩ := h.current_run hm
  obtain ⟨earlier, hpositions⟩ := List.getLast?_eq_some_iff.mp h.underway.latest
  have hlast : m.historyOf e.run.record.id =
      earlier.filterMap (fun q => (m.stepRuns.get? q.stepRun).map (⟨q, ·⟩)) ++
        [⟨p, b.stepRun.record⟩] := by
    simp only [Memory.historyOf, hpositions, List.filterMap_append, List.filterMap_cons,
      h.underway.current, Option.map_some, List.filterMap_nil]
  simp [lastOn, hlast, h.visits.branch, h.visits.name]

end Seated

/-! ## Where a unit of work may lead -/

section Leading
variable {att : Option AttemptRecord} {k : Option Int} {n : Int} {step : Step} {registry : Registry}
variable (hx : Change.Fits ⟨att, k, none, none⟩ m n e.run.record.id)
  (hrec : m.Recorded registry e.config e.run.record.id) (hstep : e.config.HasStep registry step)
  (hsame : e.SameRun f) (hbranch : f.run.record.branch = step.branch)
  (horder : f.nextOrder = (m.positionsOf e.run.record.id).length + 1)
include hx hrec hstep hsame hbranch horder

theorem Turn.enter (clock : String) (hstate : f.run.state.Suits step ∨
      f.run.state = .initialized ∧ m.positionsOf e.run.record.id = []) :
    e.Turn registry m
      ⟨att, k, some (f.newVisit step n clock), some (f.newPosition n (n + 1) clock)⟩ (n + 2)
      (f.entered step n clock) (f.newPosition n (n + 1) clock) (f.visiting step n clock) where
  fits := hx.enter rfl hsame.id rfl rfl hsame.id fun p hp => by
    have hle := hrec.order_le hp
    have hnext : (f.newPosition n (n + 1) clock).order = f.nextOrder := rfl
    omega
  leads := .enter rfl rfl horder rfl rfl
  same := hsame.trans ⟨rfl, rfl, rfl, rfl⟩
  position := rfl
  unmarked := rfl
  step := hstep
  visits := ⟨rfl, rfl, rfl, rfl⟩
  branch := hbranch
  holds := ⟨.ready, rfl, .inl rfl⟩
  state := hstate.imp id fun hs => ⟨hs.1, hs.2, rfl⟩

theorem Turn.back {s : StepRunRecord} (clock : String) (hs : m.stepRuns.get? s.id = some s)
    (hsr : s.run = e.run.record.id) (hvisits : s.Visits step)
    (hatt : ∀ a, att = some a → a.stepRun ≠ s.id) (hstate : f.run.state.Suits step) :
    e.Turn registry m ⟨att, k, none, some (f.newPosition s.id n clock)⟩ (n + 1)
      (f.reentered ⟨step, ⟨s, m.attemptsOf s.id⟩⟩ n clock) (f.newPosition s.id n clock)
      ⟨step, ⟨s, m.attemptsOf s.id⟩⟩ where
  fits := hx.back hs hsr rfl hsame.id fun p hp => by
    have hle := hrec.order_le hp
    have hnext : (f.newPosition s.id n clock).order = f.nextOrder := rfl
    omega
  leads := .back rfl rfl horder hs hatt rfl
  same := hsame.trans ⟨rfl, rfl, rfl, rfl⟩
  position := rfl
  unmarked := rfl
  step := hstep
  visits := hvisits
  branch := hbranch.trans hvisits.branch.symm
  holds := ⟨.ready, rfl, .inl rfl⟩
  state := .inl hstate

end Leading

namespace Seated
variable (hm : m.Sound) (h : e.Seated ctx.registry m p b)
include hm h

section Attempt
variable (ha : a.stepRun = b.stepRun.record.id) (hid : a.id = m.nextId)
include ha hid

theorem fits_attempt {k : Option Int} (hk : ∀ id, k = some id → id = p.id) :
    Change.Fits ⟨some a, k, none, none⟩ m (m.nextId + 1) e.run.record.id := by
  obtain ⟨hrun, -, hget⟩ := h.current_run hm
  have hmem := latestPosition_mem h.underway.latest
  constructor
  · omega
  · rintro _ ⟨⟩
    rw [ha, hid]
    exact ⟨Int.le_refl _, by omega, _, hget, hrun⟩
  · rintro id hid
    rw [hk id hid]
    exact ⟨p, hm.position_get? hmem, (mem_positionsOf.mp hmem).2⟩
  · exact fun hv => by cases hv
  · exact fun hp => by cases hp

theorem stay {e' : Engine} (hsame : e.SameRun e') (hposition : e'.position = some p)
    (hbranch : e'.run.record.branch = e.run.record.branch)
    (hholds : e'.Holds ⟨b.step, b.stepRun.push a⟩) (hstate : e'.run.state.Suits b.step) :
    e.Turn ctx.registry m ⟨some a, none, none, none⟩ (m.nextId + 1) e' p
      ⟨b.step, b.stepRun.push a⟩ where
  fits := h.fits_attempt hm ha hid fun _ hk => by cases hk
  leads := .stay rfl rfl rfl h.underway.latest h.underway.current
    (by rintro _ ⟨⟩; exact ha) (congrArg (· ++ [a]) h.attempts)
  same := hsame
  position := hposition
  unmarked := h.underway.unmarked
  step := h.step
  visits := h.visits
  branch := hbranch.trans h.underway.branch
  holds := hholds
  state := .inl hstate

end Attempt

omit hm in
theorem wait {e' : Engine} (hsame : e.SameRun e') (hposition : e'.position = some p)
    (hbranch : e'.run.record.branch = e.run.record.branch) (hholds : e'.Holds b)
    (hstate : e'.run.state.Suits b.step) :
    e.Turn ctx.registry m .nothing m.nextId e' p b where
  fits := Change.fits_nothing m _
  leads := .stay rfl rfl rfl h.underway.latest h.underway.current (fun _ ha => by cases ha)
    (h.attempts.trans (List.append_nil _).symm)
  same := hsame
  position := hposition
  unmarked := h.underway.unmarked
  step := h.step
  visits := h.visits
  branch := hbranch.trans h.underway.branch
  holds := hholds
  state := .inl hstate

end Seated
end Engine
end CallFlow
