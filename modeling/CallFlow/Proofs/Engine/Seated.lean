import CallFlow.Proofs.Engine.Moves
import CallFlow.Proofs.Run.Course

/-! # Engines at their run's current step

An engine is seated when it holds its run as the store does, and is placed at the run's last
position and at the step of that position with all its attempts. A turn leads a seated engine
to the next step to stand at; once its unit of work is committed, the engine is seated there.
-/
namespace CallFlow
open Memory

/-- The engine holds its run as the store does, but for the time of the last update. -/
structure Engine.Current (m : Memory) (e : Engine) : Prop where
  stored : ∃ r, m.runs.get? e.run.record.id = some r ∧
    e.run.record = { r with updatedAt := e.run.record.updatedAt }
  named : e.run.record.state = e.run.state.name

def Engine.Holds (e : Engine) (b : BoundStep) : Prop :=
  ∃ progress, e.stepEngine = .holding b progress ∧
    (progress = .ready ∨ e.run.state = .finished ∨ e.run.state = .error)

structure Engine.Seated (registry : Registry) (m : Memory) (e : Engine) (p : PositionRecord)
    (b : BoundStep) : Prop where
  held : e.Current m
  underway : m.Underway registry e.config e.run p b.stepRun.record
  position : e.position = some p
  attempts : b.stepRun.attempts = m.attemptsOf b.stepRun.record.id
  step : e.config.HasStep registry b.step
  visits : b.stepRun.record.Visits b.step
  holds : e.Holds b

def RunState.Suits (state : RunState) (step : Step) : Prop :=
  state = .stepInProgress ∨ state = .finished ∨ state = .error ∨
    state = .requestingUserInput ∧ step.isInput = true

/-- A unit of work that leads an engine to a position and a step. -/
structure Engine.Turn (registry : Registry) (m : Memory) (e : Engine) (x : Change) (n : Int)
    (e' : Engine) (p : PositionRecord) (b : BoundStep) : Prop where
  fits : x.Fits m n e.run.record.id
  leads : x.Leads m e.run.record.id p b.stepRun
  same : e.SameRun e'
  position : e'.position = some p
  unmarked : p.branchedOnError = false
  step : e.config.HasStep registry b.step
  visits : b.stepRun.record.Visits b.step
  branch : e'.run.record.branch = b.stepRun.record.branch
  holds : e'.Holds b
  state : e'.run.state.Suits b.step ∨
    e'.run.state = .initialized ∧ m.positionsOf e.run.record.id = [] ∧ b.stepRun.attempts = []

namespace Engine

theorem Holds.current {e : Engine} {b : BoundStep} (h : e.Holds b) :
    e.stepEngine.current? = some b := by
  obtain ⟨progress, hprogress, -⟩ := h
  rw [hprogress]
  rfl

theorem Holds.ready {e : Engine} {b : BoundStep} (h : e.Holds b) (hfinished : e.run.state ≠ .finished)
    (herror : e.run.state ≠ .error) : e.stepEngine = .holding b .ready := by
  obtain ⟨progress, hprogress, hready⟩ := h
  rw [hprogress]
  rcases hready with rfl | hs | hs
  · rfl
  · exact absurd hs hfinished
  · exact absurd hs herror

theorem Current.sameLeg {m m' : Memory} {e : Engine} (h : e.Current m)
    (hs : SameLeg m m' e.run.record.id) : e.Current m' := by
  refine ⟨?_, h.named⟩
  rw [hs.run]
  exact h.stored

/-- An engine that holds its run as the store does may only lack the time of the last update. -/
theorem Current.record_eq {m : Memory} {e : Engine} {r : RunRecord} (h : e.Current m)
    (hr : m.runs.get? e.run.record.id = some r) :
    e.run.record = { r with updatedAt := e.run.record.updatedAt } := by
  obtain ⟨r', hr', hsame⟩ := h.stored
  obtain rfl : r' = r := Option.some.inj (hr'.symm.trans hr)
  exact hsame

theorem Current.state_eq {m : Memory} {e : Engine} {r : RunRecord} (h : e.Current m)
    (hr : m.runs.get? e.run.record.id = some r) : r.state = e.run.state.name := by
  rw [← h.named, h.record_eq hr]

/-- What happens to other runs does not unseat an engine. -/
theorem Seated.sameLeg {registry : Registry} {m m' : Memory} {e : Engine} {p : PositionRecord}
    {b : BoundStep} (hm : m.Sound) (h : e.Seated registry m p b)
    (hs : SameLeg m m' e.run.record.id) : e.Seated registry m' p b := by
  have hunderway := h.underway.sameLeg hm hs
  obtain ⟨hrun, -, hget⟩ := h.underway.current_run hm
  refine ⟨h.held.sameLeg hs, hunderway, h.position, ?_, h.step, h.visits, h.holds⟩
  rw [h.attempts, hs.attempts hget hrun]

theorem Seated.prompted {registry : Registry} {m : Memory} {e : Engine} {p : PositionRecord}
    {b : BoundStep} (hw : e.config.tree.WellFormed registry) (h : e.Seated registry m p b)
    (hs : e.run.state = .requestingUserInput) : b.step.isInput = true := by
  obtain ⟨step, hstep, hvisits, hinput⟩ := h.underway.prompted hs
  obtain rfl : step = b.step := hstep.unique hw h.step
    (hvisits.branch.symm.trans h.visits.branch) (hvisits.name.symm.trans h.visits.name)
  exact hinput

variable {registry : Registry} {m : Memory} {e e' : Engine} {x : Change} {n : Int}
variable {p : PositionRecord} {b : BoundStep}

def atVersion (e : Engine) (version : Int) : Engine := { e with run := e.run.atVersion version }

def stored (e : Engine) (version : Int) (clock : String) : RunRecord :=
  { e.run.toRecord with version, updatedAt := clock }

theorem Turn.stored_run (h : e.Turn registry m x n e' p b) (version : Int) (clock : String) :
    (m.post x n (e'.stored version clock)).runs.get? e.run.record.id =
      some (e'.stored version clock) := by
  rw [post_runs, Table.get?_insert]
  exact if_pos h.same.id.symm

theorem Turn.settled (h : e.Turn registry m x n e' p b) :
    e'.run.state ≠ .uninitialized ∧ e'.run.state ≠ .processingInput := by
  rcases h.state with (hs | hs | hs | ⟨hs, -⟩) | ⟨hs, -⟩ <;> simp [hs]

theorem Turn.prompted (h : e.Turn registry m x n e' p b)
    (hstate : e'.run.state = .requestingUserInput) : b.step.isInput = true := by
  rcases h.state with (hs | hs | hs | ⟨-, hinput⟩) | ⟨hs, -⟩
  case inl.inr.inr.inr => exact hinput
  all_goals simp [hs] at hstate

/-- Only the first step of a run is entered before the run is in progress. -/
theorem Turn.first (h : e.Turn registry m x n e' p b) (hstate : e'.run.state = .initialized) :
    m.positionsOf e.run.record.id = [] ∧ b.stepRun.attempts = [] := by
  rcases h.state with (hs | hs | hs | ⟨hs, -⟩) | ⟨-, hfresh⟩
  case inr => exact hfresh
  all_goals simp [hs] at hstate

theorem Turn.positionsOf_first {r : RunRecord} (hm : m.Sound) (h : e.Turn registry m x n e' p b)
    (hnone : m.positionsOf e.run.record.id = []) :
    (m.post x n r).positionsOf e.run.record.id = [p] := by
  have hlatest := h.leads.latest (r := r) hm h.fits
  rw [latestPosition, h.fits.positionsOf hm, hnone, List.map_nil, List.nil_append] at hlatest
  rw [h.fits.positionsOf hm, hnone, List.map_nil, List.nil_append]
  cases hp : x.position with
  | none => simp [hp] at hlatest
  | some q =>
    simp only [hp, Option.toList_some, List.getLast?_singleton, Option.some.injEq] at hlatest
    rw [hlatest, Option.toList_some]

theorem Turn.entered (h : e.Turn registry m x n e' p b) (v : StepRunRecord)
    (hv : x.visit = some v) : ∃ step, e.config.HasStep registry step ∧ v.Visits step := by
  cases h.leads with
  | stay _ visit => simp [hv] at visit
  | back visit => simp [hv] at visit
  | enter visit =>
    obtain rfl : v = b.stepRun.record := Option.some.inj (hv.symm.trans visit)
    exact ⟨b.step, h.step, h.visits⟩

theorem Turn.seated (hm : m.Sound) (hrec : m.Recorded registry e.config e.run.record.id)
    (h : e.Turn registry m x n e' p b) (version : Int) (clock : String) :
    (e'.atVersion version).Seated registry (m.post x n (e'.stored version clock)) p b := by
  have hid : (e'.atVersion version).run.record.id = e.run.record.id := h.same.id
  have hconfig : (e'.atVersion version).config = e.config := h.same.config
  constructor
  · refine ⟨⟨e'.stored version clock, ?_, rfl⟩, rfl⟩
    rw [post_runs, Table.get?_insert]
    exact if_pos rfl
  · constructor
    · rw [hid, hconfig]
      exact h.leads.recorded hm h.fits hrec h.entered
    · rw [hid]
      exact h.leads.latest hm h.fits
    · exact h.leads.current hm h.fits
    · exact h.branch
    · exact h.unmarked
    · rfl
    · exact h.settled
    · exact fun hstate => ⟨b.step, hconfig ▸ h.step, h.visits, h.prompted hstate⟩
    · intro hstate
      obtain ⟨hnone, hattempts⟩ := h.first hstate
      rw [hid]
      exact ⟨h.positionsOf_first hm hnone, (h.leads.attempts hm h.fits).symm.trans hattempts⟩
  · exact h.position
  · exact h.leads.attempts hm h.fits
  · exact hconfig ▸ h.step
  · exact h.visits
  · exact h.holds

def outcome {α : Type} (e : Engine) : Except EngineError α → Engine
  | .ok _ => e
  | .error _ => e.stopped

end Engine

namespace Work
variable {α : Type} {m : Memory} {e e' : Engine} {x : Change} {n : Int}

def saved (m : Memory) (n : Int) (x : Change) (e : Engine) (version : Int) : Work Memory :=
  ⟨{ m with nextId := n }, ⟨x.writes ++ [.updateRun (e.stored version m.clock)]⟩,
    e.atVersion version⟩

/-- A run that was not changed in the meantime is saved with the next version. -/
theorem save_run {c : RunRecord} (hc : m.runs.get? e.run.record.id = some c)
    (hv : c.version = e.run.record.version) :
    save.run (during m n x e) = (.ok (), saved m n x e (c.version + 1)) := by
  have hversion : Memory.version? { m with nextId := n } ⟨x.writes⟩ e.run.toRecord.id =
      some c.version := by
    have hid : e.run.toRecord.id = e.run.record.id := rfl
    simp only [Memory.version?, version?_writes, Option.none_or, hid, hc, Option.map_some]
  have hupdate : Memory.updateRun e.run.toRecord ⟨x.writes⟩ { m with nextId := n } =
      (.ok (c.version + 1, ⟨x.writes ++ [.updateRun (e.stored (c.version + 1) m.clock)]⟩),
        { m with nextId := n }) := by
    unfold Memory.updateRun
    rw [hversion]
    exact if_pos hv
  exact save_run_staged hupdate

theorem commit_run {run version : Int} {c : RunRecord} (hfits : x.Fits m n run)
    (hid : e.run.record.id = run) (hc : m.runs.get? run = some c)
    (hv : c.version + 1 = version) :
    commit.run (saved m n x e version) =
      (.ok (), { saved m n x e version with store := m.post x n (e.stored version m.clock) }) := by
  subst hid
  have hcommit := commit_post (r := e.stored version m.clock) hfits hc hv
  have hrun : (Backend.commit (σ := Memory) (saved m n x e version).snapshot).run
      { m with nextId := n } = (.ok (), m.post x n (e.stored version m.clock)) := hcommit
  show (query _).run (saved m n x e version) = _
  simp only [query, saved] at hrun ⊢
  rw [hrun]

/-- A success and an unrecoverable failure commit all that was staged with the run's new
version. -/
theorem run_committed {body : WorkM Memory α} {res : Except EngineError α} {c : RunRecord}
    (hbody : body.run (during m m.nextId .nothing e) = (res, during m n x e'))
    (hres : Committed res) (hfits : x.Fits m n e.run.record.id)
    (hsame : e.SameRun (e'.outcome res)) (hc : m.runs.get? e.run.record.id = some c)
    (hv : c.version = e.run.record.version) :
    Work.run body e m =
      ((res, (e'.outcome res).atVersion (c.version + 1)),
        m.post x n ((e'.outcome res).stored (c.version + 1) m.clock)) := by
  have houtcome : (Effect.outcome body : WorkM Memory (Except EngineError α)).run
      (during m m.nextId .nothing e) = (.ok res, during m n x e') := by
    rw [Effect.run_outcome, hbody]
  have hsave := save_run (m := m) (n := n) (x := x) (hsame.id ▸ hc)
    (hv.trans hsame.version.symm)
  have hcommit := commit_run hfits hsame.id hc rfl
  have hsettled : (settled body).run ⟨m, .empty, e⟩ =
      (res, { saved m n x (e'.outcome res) (c.version + 1) with
        store := m.post x n ((e'.outcome res).stored (c.version + 1) m.clock) }) := by
    refine (Effect.bind_of_ok houtcome).trans ?_
    match res, hres with
    | .ok value, _ =>
      refine (Effect.bind_of_ok hsave).trans ?_
      exact Effect.bind_of_ok hcommit
    | .error (.unrecoverable branch step reason), _ =>
      refine (Effect.bind_of_ok (registerStop_run _)).trans ?_
      refine (Effect.bind_of_ok hsave).trans ?_
      exact Effect.bind_of_ok hcommit
  have hopen : (Backend.openSnapshot (σ := Memory)).run m = (.ok .empty, m) := rfl
  simp only [Work.run, hopen, hsettled]
  rfl

end Work
end CallFlow
