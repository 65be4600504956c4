import CallFlow.Proofs.Run.Course
import CallFlow.Proofs.Run.Visits

/-! # The last visit in the history

A run is at a step as often as positions of its history lead there, and may come back to a step run
that it had. The last visit to the step is the step run that the last of these positions leads to.
The store looks for it among the step runs instead, and takes the one that was recorded last. Both
are the same: the run goes back to no other step run than the one that the store finds, and a new
one is what the store finds from then on.
-/
namespace CallFlow
open Memory

namespace Memory

structure StoodAt (m : Memory) (run : Int) (branch name : String) (p : PositionRecord)
    (s : StepRunRecord) : Prop where
  listed : p ∈ m.positionsOf run
  current : m.stepRuns.get? p.stepRun = some s
  branch : s.branch = branch
  name : s.name = name

def LastVisit (m : Memory) (run : Int) (branch name : String) : Option StepRunRecord → Prop
  | some s => ∃ p, m.StoodAt run branch name p s ∧
      ∀ q t, m.StoodAt run branch name q t → q.order ≤ p.order
  | none => ∀ p s, ¬ m.StoodAt run branch name p s

/-- What the store finds for a step of the run is the last visit to it. -/
def Recalls (m : Memory) (run : Int) : Prop :=
  ∀ branch name, m.LastVisit run branch name (m.findStepRun run branch name)

variable {m : Memory} {registry : Registry} {config : FlowConfig} {x : Change} {next run : Int}
variable {r : RunRecord} {branch name : String} {p q : PositionRecord} {s t : StepRunRecord}
variable {visit other : Option StepRunRecord}

theorem LastVisit.unique
    (hinj : ∀ p ∈ m.positionsOf run, ∀ q ∈ m.positionsOf run, p.order = q.order → p = q)
    (h : m.LastVisit run branch name visit) (h' : m.LastVisit run branch name other) :
    visit = other := by
  cases visit with
  | none =>
    cases other with
    | none => rfl
    | some t =>
      obtain ⟨q, hq, -⟩ := h'
      exact absurd hq (h q t)
  | some s =>
    obtain ⟨p, hp, hlast⟩ := h
    cases other with
    | none => exact absurd hp (h' p s)
    | some t =>
      obtain ⟨q, hq, hlast'⟩ := h'
      have horder : p.order = q.order := Int.le_antisymm (hlast' p s hp) (hlast q t hq)
      obtain rfl := hinj p hp.listed q hq.listed horder
      exact hp.current.symm.trans hq.current

/-- The step run that a run stands at is the last visit to its step. -/
theorem Recorded.lastVisit_latest (h : m.Recorded registry config run)
    (hp : m.latestPosition run = some p) (hs : m.stepRuns.get? p.stepRun = some s) :
    m.LastVisit run s.branch s.name (some s) := by
  refine ⟨p, ⟨latestPosition_mem hp, hs, rfl, rfl⟩, fun q t hq => ?_⟩
  rw [h.order_latest hp]
  exact h.order_le hq.listed

/-- A step that the store finds no step run for was never visited. -/
theorem Sound.lastVisit_none (hm : m.Sound) (h : m.findStepRun run branch name = none) :
    m.LastVisit run branch name none := by
  intro p s hp
  obtain ⟨s', hget, hrun, hid⟩ := hm.joined hp.listed
  obtain rfl : s' = s := Option.some.inj (hget.symm.trans hp.current)
  rw [findStepRun_eq, List.getLast?_eq_none_iff] at h
  have hvisit : s' ∈ m.visitsOf run :=
    List.mem_filter.mpr ⟨hm.mem_stepRuns_iff.mpr (hid ▸ hget), decide_eq_true hrun⟩
  have hmissed := List.filter_eq_nil_iff.mp h s' hvisit
  simp [hp.branch, hp.name] at hmissed

theorem SameLeg.stoodAt_iff {m' : Memory} (hm : m.Sound) (hs : SameLeg m m' run) :
    m'.StoodAt run branch name p s ↔ m.StoodAt run branch name p s := by
  have hkept {p : PositionRecord} (hp : p ∈ m.positionsOf run) :
      m'.stepRuns.get? p.stepRun = m.stepRuns.get? p.stepRun := by
    obtain ⟨s, hget, hrun, -⟩ := hm.joined hp
    exact ((hs.stepRuns hrun).mpr hget).trans hget.symm
  constructor
  · rintro ⟨hlisted, hget, hbranch, hname⟩
    rw [hs.positions] at hlisted
    exact ⟨hlisted, hkept hlisted ▸ hget, hbranch, hname⟩
  · rintro ⟨hlisted, hget, hbranch, hname⟩
    exact ⟨hs.positions ▸ hlisted, (hkept hlisted).trans hget, hbranch, hname⟩

theorem SameLeg.lastVisit_iff {m' : Memory} (hm : m.Sound) (hs : SameLeg m m' run) :
    m'.LastVisit run branch name visit ↔ m.LastVisit run branch name visit := by
  cases visit <;> simp only [LastVisit, hs.stoodAt_iff hm]

theorem Recalls.sameLeg {m' : Memory} (hm : m.Sound) (hs : SameLeg m m' run) (h : m.Recalls run) :
    m'.Recalls run := by
  intro branch name
  rw [hs.lastVisit_iff hm, hs.findStepRun]
  exact h branch name

end Memory

/-! ## One unit of work -/

namespace Change.Leads
variable {m : Memory} {registry : Registry} {config : FlowConfig} {x : Change} {next run : Int}
variable {r : RunRecord} {branch name : String} {p q : PositionRecord} {s : StepRun}
variable {t : StepRunRecord} {visit : Option StepRunRecord}
variable (hm : m.Sound) (hx : x.Fits m next run) (h : x.Leads m run p s)
include hm hx h

/-- A step that the work does not lead to is visited where it was before. -/
theorem stoodAt_post_iff (hother : ¬ (s.record.branch = branch ∧ s.record.name = name)) :
    (m.post x next r).StoodAt run branch name q t ↔
      ∃ q₀, x.mark q₀ = q ∧ m.StoodAt run branch name q₀ t := by
  constructor
  · rintro ⟨hlisted, hget, hbranch, hname⟩
    rcases (mem_positionsOf_post hm hx).mp hlisted with ⟨q₀, hq₀, rfl⟩ | hnew
    · rw [mark_stepRun] at hget
      obtain ⟨t', hget', -⟩ := hm.joined hq₀
      have hkept := (post_stepRuns_get? (r := r) hm hx).mpr (.inl hget')
      obtain rfl : t' = t := Option.some.inj (hkept.symm.trans hget)
      exact ⟨q₀, rfl, hq₀, hget', hbranch, hname⟩
    · obtain rfl := h.position_eq hnew
      obtain rfl : s.record = t := Option.some.inj ((h.current hm hx).symm.trans hget)
      exact absurd ⟨hbranch, hname⟩ hother
  · rintro ⟨q₀, rfl, hq₀, hget, hbranch, hname⟩
    refine ⟨(mem_positionsOf_post hm hx).mpr (.inl ⟨q₀, hq₀, rfl⟩), ?_, hbranch, hname⟩
    rw [mark_stepRun]
    exact (post_stepRuns_get? hm hx).mpr (.inl hget)

theorem lastVisit_post (hother : ¬ (s.record.branch = branch ∧ s.record.name = name))
    (hlast : m.LastVisit run branch name visit) :
    (m.post x next r).LastVisit run branch name visit := by
  have hstood {q t} := h.stoodAt_post_iff (r := r) (q := q) (t := t) hm hx hother
  cases visit with
  | none =>
    intro q t hq
    obtain ⟨q₀, -, hq₀⟩ := hstood.mp hq
    exact hlast q₀ t hq₀
  | some t =>
    obtain ⟨p₀, hp₀, hlatest⟩ := hlast
    refine ⟨x.mark p₀, hstood.mpr ⟨p₀, rfl, hp₀⟩, fun q t' hq => ?_⟩
    obtain ⟨q₀, rfl, hq₀⟩ := hstood.mp hq
    rw [mark_order, mark_order]
    exact hlatest q₀ t' hq₀

/-- The store still finds the last visits, as long as it finds the one that the run is led to. -/
theorem recalls (hrec : (m.post x next r).Recorded registry config run)
    (hfound : (m.post x next r).findStepRun run s.record.branch s.record.name = some s.record)
    (hold : m.Recalls run) : (m.post x next r).Recalls run := by
  intro branch name
  by_cases hat : s.record.branch = branch ∧ s.record.name = name
  · obtain ⟨rfl, rfl⟩ := hat
    rw [hfound]
    exact hrec.lastVisit_latest (h.latest hm hx) (h.current hm hx)
  · have hsame : (m.post x next r).findStepRun run branch name = m.findStepRun run branch name := by
      refine findStepRun_post hm hx fun v hv => ?_
      rw [h.visit_eq hv]
      exact hat
    rw [hsame]
    exact h.lastVisit_post hm hx hat (hold branch name)

end Change.Leads
end CallFlow
