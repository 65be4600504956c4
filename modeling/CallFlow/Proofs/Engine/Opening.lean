import CallFlow.Proofs.Engine.Calls

/-! # Opening an engine

An engine that is opened on a run that is under way is seated, and nothing is written for it.
The first engine of a run that was only created enters the first step of the flow. An engine
that is seated already and a fresh one on the same store agree on all they hold.
-/
namespace CallFlow
open Memory Work

def Effect.Reads {σ ε α : Type} (x : Effect σ ε α) (s : σ) (Q : α → Prop) : Prop :=
  (x.run s).2 = s ∧ ∀ a, (x.run s).1 = .ok a → Q a

namespace Effect.Reads
variable {σ ε α β : Type} {s : σ} {Q : β → Prop}

theorem pure {b : β} (h : Q b) : Reads (ε := ε) (Pure.pure b) s Q :=
  ⟨rfl, by rintro _ ⟨⟩; exact h⟩

theorem bind {x : Effect σ ε α} {f : α → Effect σ ε β} (hx : (x.run s).2 = s)
    (hf : ∀ a, (x.run s).1 = .ok a → (f a).Reads s Q) : (x >>= f).Reads s Q := by
  rcases h : x.run s with ⟨e | a, s'⟩ <;> rw [h] at hx hf <;> obtain rfl : s' = s := hx
  · rw [Reads, bind_of_error h]
    exact ⟨rfl, fun _ hb => by cases hb⟩
  · rw [Reads, bind_of_ok h]
    exact hf a rfl

end Effect.Reads

namespace Engine
variable {ctx : Context} {m : Memory} {e : Engine} {p : PositionRecord} {b : BoundStep}

theorem rehydrate_reads (ctx : Context) : (rehydrate ctx e p).Reads m (e.SameRun ·) := by
  unfold rehydrate
  refine .bind rfl fun record _ => .bind rfl fun attempts _ => .bind rfl fun template _ => ?_
  refine .bind rfl fun step _ => .bind rfl fun snapshot _ => .bind rfl fun bound _ => ?_
  exact .bind rfl fun _ _ => .pure ⟨rfl, rfl, rfl, rfl⟩

def stepOf (ctx : Context) (e : Engine) (s : StepRunRecord) : Except EngineError Step :=
  match e.config.tree.step s.branch s.name with
  | .error failure => .error (.config failure)
  | .ok template => (Step.ofTemplate template s.branch ctx.registry).mapError .config

/-- What an engine reads back is the step of the position, with its step run. -/
theorem rehydrate_eq {s : StepRunRecord} (hs : m.stepRuns.get? p.stepRun = some s) :
    (rehydrate ctx e p).run m =
      ((e.stepOf ctx s).map fun step => { e with
        stepEngine := .holding ⟨step, ⟨s, m.attemptsOf s.id⟩⟩ .ready
        position := some p }, m) := by
  have hrecord : (Effect.mapError EngineError.ofStorage
      (Backend.stepRun (σ := Memory) p.stepRun)).run m = (.ok s, m) := by
    show ((m.stepRun p.stepRun).mapError _, m) = _
    simp only [Memory.stepRun, hs]
    rfl
  have hattempts : (Effect.mapError EngineError.ofStorage
      (Backend.attempts (σ := Memory) s.id)).run m = (.ok (m.attemptsOf s.id), m) := rfl
  refine (Effect.bind_of_ok hrecord).trans ?_
  refine (Effect.bind_of_ok hattempts).trans ?_
  unfold stepOf
  cases e.config.tree.step s.branch s.name with
  | error failure => rfl
  | ok template =>
    have htemplate : (Effect.ofExcept ((Except.ok template).mapError EngineError.config) :
        Effect Memory _ _).run m = (.ok template, m) := rfl
    refine (Effect.bind_of_ok htemplate).trans ?_
    dsimp only
    cases Step.ofTemplate template s.branch ctx.registry <;> rfl

theorem rehydrate_run (hw : e.config.tree.WellFormed ctx.registry)
    (hs : m.stepRuns.get? p.stepRun = some b.stepRun.record)
    (ha : b.stepRun.attempts = m.attemptsOf b.stepRun.record.id)
    (hstep : e.config.HasStep ctx.registry b.step) (hvisits : b.stepRun.record.Visits b.step) :
    (rehydrate ctx e p).run m =
      (.ok { e with stepEngine := .holding b .ready, position := some p }, m) := by
  obtain ⟨br, t, hfrom⟩ := hstep.builtFrom
  have ht := hfrom.found hw
  have hbuilt := hstep.built hw ht
  rw [← hvisits.branch, ← hvisits.name] at ht
  rw [← hvisits.branch] at hbuilt
  have hstepOf : e.stepOf ctx b.stepRun.record = .ok b.step := by
    simp only [stepOf, ht, Step.ofTemplate_eq_ok.mpr hbuilt]
    rfl
  rw [rehydrate_eq hs, hstepOf, ← ha]
  rfl

/-! ## Preparing -/

theorem latest_run (run : Int) : (Effect.mapError EngineError.ofStorage
    (Backend.latestPosition (σ := Memory) run)).run m = (.ok (m.latestPosition run), m) := rfl

theorem prepare_run_some (h : m.latestPosition e.run.record.id = some p) :
    (prepare ctx e).run m = (rehydrate ctx e p).run m := by
  refine (Effect.bind_of_ok (latest_run _)).trans ?_
  rw [h]

theorem prepare_run_first (h : m.latestPosition e.run.record.id = none)
    (hs : e.run.state = .uninitialized) :
    (prepare ctx e).run m =
      ((Work.run (enterFirst ctx) e m).1.1.map fun _ => (Work.run (enterFirst ctx) e m).1.2,
        (Work.run (enterFirst ctx) e m).2) := by
  refine (Effect.bind_of_ok (latest_run _)).trans ?_
  simp only [h, if_pos hs]
  rcases Work.run (enterFirst ctx) e m with ⟨⟨_ | _, _⟩, _⟩ <;> rfl

theorem prepare_run_lost (h : m.latestPosition e.run.record.id = none)
    (hs : e.run.state ≠ .uninitialized) :
    (prepare ctx e).run m =
      (.error (.initialization (.noHistory e.run.record.id e.run.state)), m) := by
  refine (Effect.bind_of_ok (latest_run _)).trans ?_
  simp only [h, if_neg hs]
  rfl

/-- An engine of a run that is under way is placed where the run stands, whatever version it
holds. -/
theorem prepare_placed (ctx : Context) {run : Run} {s : StepRunRecord} (hm : m.Sound)
    (hw : e.config.tree.WellFormed ctx.registry) (hid : e.run.record.id = run.record.id)
    (hu : m.Underway ctx.registry e.config run p s) :
    ∃ step, (prepare ctx e).run m = (.ok { e with
        stepEngine := .holding ⟨step, ⟨s, m.attemptsOf s.id⟩⟩ .ready, position := some p }, m) ∧
      e.config.HasStep ctx.registry step ∧ s.Visits step := by
  obtain ⟨hrun, -, hget⟩ := hu.current_run hm
  obtain ⟨step, hstep, hvisits⟩ := hu.recorded.built hget hrun
  refine ⟨step, ?_, hstep, hvisits⟩
  rw [prepare_run_some (hid ▸ hu.latest)]
  exact rehydrate_run (b := ⟨step, ⟨s, m.attemptsOf s.id⟩⟩) hw hu.current rfl hstep hvisits

theorem prepare_underway {s : StepRunRecord} (hm : m.Sound)
    (hw : e.config.tree.WellFormed ctx.registry) (hc : e.Current m)
    (hu : m.Underway ctx.registry e.config e.run p s) :
    ∃ b, (prepare ctx e).run m =
        (.ok { e with stepEngine := .holding b .ready, position := some p }, m) ∧
      Seated ctx.registry m { e with stepEngine := .holding b .ready, position := some p } p b := by
  obtain ⟨step, hrun, hstep, hvisits⟩ := prepare_placed ctx hm hw rfl hu
  exact ⟨⟨step, ⟨s, m.attemptsOf s.id⟩⟩, hrun,
    ⟨⟨hc.stored, hc.named⟩, hu, rfl, rfl, hstep, hvisits, ⟨.ready, rfl, .inl rfl⟩⟩⟩

inductive Opened (registry : Registry) (m : Memory) (e : Engine) :
    Change → Int → Engine → PositionRecord → BoundStep → Prop
  | intro {br t rest step} (first : e.config.tree.firstBranch = .ok br) (head : br.steps = t :: rest)
      (built : step.Built registry t br.name) :
      Opened registry m e
        ⟨none, none, some (e.newVisit step m.nextId m.clock),
          some (e.newPosition m.nextId (m.nextId + 1) m.clock)⟩
        (m.nextId + 2) ((e.inState .initialized).entered step m.nextId m.clock)
        (e.newPosition m.nextId (m.nextId + 1) m.clock) (e.visiting step m.nextId m.clock)

section First
variable {r : RunRecord} (hm : m.Sound) (hw : e.config.tree.WellFormed ctx.registry)
  (hr : m.runs.get? e.run.record.id = some r) (hu : m.Unprepared e.config r)
  (hbranch : e.run.record.branch = r.branch) (hposition : e.position = none)
include hm hr hu hbranch hposition

theorem Opened.turn {e' : Engine} {x : Change} {n : Int} (h : e.Opened ctx.registry m x n e' p b) :
    e.Turn ctx.registry m x n e' p b := by
  have hid : r.id = e.run.record.id := (hm.runs hr).1
  have hnone : m.positionsOf e.run.record.id = [] := hid ▸ hu.positions
  have hrec : m.Recorded ctx.registry e.config e.run.record.id := hid ▸ hu.recorded ctx.registry
  obtain ⟨br', hfirst', hname⟩ := hu.branch
  cases h with
  | @intro br t rest step first head built =>
    obtain rfl : br = br' := Except.ok.inj (first.symm.trans hfirst')
    have hbr : br ∈ e.config.tree.branches := StepTree.firstBranch_mem first
    have hon : e.run.record.branch = step.branch :=
      hbranch.trans (hname.trans built.branch.symm)
    have horder : (e.inState .initialized).nextOrder =
        (m.positionsOf e.run.record.id).length + 1 := by
      simp only [nextOrder, hnone, show (e.inState .initialized).position = none from hposition]
      rfl
    exact Turn.enter (f := e.inState .initialized) (Change.fits_nothing m _) hrec
      ⟨br, hbr, t, by simp [head], built⟩ ⟨rfl, rfl, rfl, rfl⟩ hon horder m.clock
      (.inr ⟨rfl, hnone⟩)

variable (hstate : e.run.state = .uninitialized)
include hw hstate

omit hposition in
theorem enterFirst_run : ∃ x n e' p b,
    (enterFirst ctx).run (during m m.nextId .nothing e) = (.ok (), during m n x e') ∧
      e.Opened ctx.registry m x n e' p b := by
  have hid : r.id = e.run.record.id := (hm.runs hr).1
  obtain ⟨br, hfirst, hname⟩ := hu.branch
  have hbr : br ∈ e.config.tree.branches := StepTree.firstBranch_mem hfirst
  obtain ⟨t, rest, hsteps⟩ := List.exists_cons_of_ne_nil (hw.steps br hbr)
  obtain ⟨step, hstep⟩ := hw.exists_built hbr (s := t) (by simp [hsteps])
  have hfree : m.hasOrder e.run.record.id e.nextOrder = false :=
    hasOrder_eq_false fun q hq => by simp [hid ▸ hu.positions] at hq
  have henter := enterStep_run_new step (n := m.nextId) (a := none) (k := none)
    (Table.contains_of_get? hr) hfree
  have hfound : (configured (e.config.tree.branch e.run.record.branch)).run
      (during m m.nextId .nothing e) = (.ok br, during m m.nextId .nothing e) :=
    configured_run_ok (by rw [hbranch, hname]; exact hw.branch_eq hbr)
  refine ⟨_, _, _, _, _, ?_, .intro hfirst hsteps hstep⟩
  refine (Effect.bind_of_ok (engine?_run _)).trans ?_
  refine (Effect.bind_of_ok hfound).trans ?_
  simp only [hsteps]
  refine (Effect.bind_of_ok (configured_run_ok (Step.ofTemplate_eq_ok.mpr hstep))).trans ?_
  refine (Effect.bind_of_ok henter).trans ?_
  have hfire : Trigger.initializeFirstStep.fire? e.run.state = some .initialized := by
    rw [hstate]
    rfl
  exact fire_run hfire

theorem prepare_unprepared (hv : r.version = e.run.record.version) :
    ∃ x n e' p b, (prepare ctx e).run m =
        (.ok (e'.atVersion (r.version + 1)), m.post x n (e'.stored (r.version + 1) m.clock)) ∧
      e.Opened ctx.registry m x n e' p b := by
  obtain ⟨x, n, e', p, b, hrun, hopened⟩ := enterFirst_run hm hw hr hu hbranch hstate
  refine ⟨x, n, e', p, b, ?_, hopened⟩
  have hturn := hopened.turn hm hr hu hbranch hposition
  have hcommitted := run_committed hrun trivial hturn.fits hturn.same hr hv
  have hid : r.id = e.run.record.id := (hm.runs hr).1
  have hnone : m.latestPosition e.run.record.id = none :=
    latestPosition_eq_none_iff.mpr (hid ▸ hu.positions)
  rw [prepare_run_first hnone hstate, hcommitted]
  rfl

end First

def Waiting (e : Engine) : Prop := e.stepEngine = .idle ∧ e.position = none

theorem Waiting.callStep_run (h : e.Waiting) (ctx : Context) (m : Memory) (raw : Option String) :
    (callStep ctx raw).run (during m m.nextId .nothing e) =
      (.error (.initialization .noCurrentStep), during m m.nextId .nothing e) := by
  refine Effect.bind_of_error ((Effect.bind_of_ok (engine?_run _)).trans ?_)
  rw [show (during m m.nextId .nothing e).engine.stepEngine = _ from h.1]
  rfl

theorem create_reads (ctx : Context) (id : Int) (m : Memory) : (create ctx id).Reads m fun e =>
    ∃ r, m.runs.get? id = some r ∧ e.run.record = r ∧ e.run.record.state = e.run.state.name ∧
      ctx.flows e.run.record.configTag = .ok e.config ∧ e.Waiting := by
  have hload : (Run.load (σ := Memory) id).Reads m fun run =>
      m.runs.get? id = some run.record ∧ run.record.state = run.state.name := by
    refine .bind rfl fun r hr => ⟨rfl, fun run hrun => ?_⟩
    have hr : m.run id = .ok r := mapError_eq_ok.mp hr
    unfold Memory.run at hr
    cases hget : m.runs.get? id with
    | none => simp [hget] at hr
    | some r' =>
      obtain rfl : r' = r := by simpa [hget] using hr
      have hrun : Run.ofRecord r' = .ok run := hrun
      unfold Run.ofRecord at hrun
      split at hrun <;> cases hrun
      rename_i state hstate
      have hname : state.name = r'.state := by simpa using List.find?_some hstate
      exact ⟨rfl, hname.symm⟩
  refine .bind hload.1 fun run hrun => .bind rfl fun config hconfig => .pure ?_
  obtain ⟨hget, hnamed⟩ := hload.2 run hrun
  refine ⟨run.record, hget, rfl, hnamed, ?_, rfl, rfl⟩
  exact mapError_eq_ok.mp hconfig

theorem create_run {id : Int} {r : RunRecord} {state : RunState} {config : FlowConfig}
    (hr : m.runs.get? id = some r) (hs : r.state = state.name)
    (hf : ctx.flows r.configTag = .ok config) :
    (create ctx id).run m = (.ok ⟨config, ⟨r, state⟩, .idle, none⟩, m) := by
  have hload : (Run.load (σ := Memory) id).run m = (.ok ⟨r, state⟩, m) := by
    have hrecord : (Effect.mapError EngineError.ofStorage (Backend.run (σ := Memory) id)).run m =
        (.ok r, m) := by
      show ((m.run id).mapError _, m) = _
      simp only [Memory.run, hr]
      rfl
    refine (Effect.bind_of_ok hrecord).trans ?_
    simp only [Effect.run_ofExcept, Run.ofRecord, hs, RunState.ofName?_name]
  have hconfig : (Effect.ofExcept ((ctx.flows r.configTag).mapError EngineError.config) :
      Effect Memory _ _).run m = (.ok config, m) := by
    rw [hf]
    rfl
  refine (Effect.bind_of_ok hload).trans ?_
  exact Effect.bind_of_ok hconfig

/-! ## Fresh engines -/

def fresh (ctx : Context) (run : Int) : Effect Memory EngineError Engine := do
  prepare ctx (← create ctx run)

/-- A fresh engine holds what this one holds. The time of the last update is only known to the
fresh one, and its step is ready again even where the run has come to an end. -/
structure Agrees (e e' : Engine) : Prop where
  config : e'.config = e.config
  record : e'.run.record = { e.run.record with updatedAt := e'.run.record.updatedAt }
  state : e'.run.state = e.run.state
  position : e'.position = e.position
  current : e'.stepEngine.current? = e.stepEngine.current?
  stepEngine : e.run.state ≠ .finished → e.run.state ≠ .error → e'.stepEngine = e.stepEngine

/-- Nothing is kept in memory: what a seated engine holds is read back from the store. -/
theorem Seated.fresh_agrees (ctx : Context) (hw : e.config.tree.WellFormed ctx.registry)
    (hf : ctx.flows e.run.record.configTag = .ok e.config)
    (h : e.Seated ctx.registry m p b) :
    ∃ e', (fresh ctx e.run.record.id).run m = (.ok e', m) ∧ e.Agrees e' := by
  obtain ⟨r, hr, hsame⟩ := h.held.stored
  have htag : e.run.record.configTag = r.configTag := by rw [hsame]
  have hnamed : r.state = e.run.state.name := by rw [← h.held.named, hsame]
  have hid : e.run.record.id = r.id := by rw [hsame]
  let e₀ : Engine := ⟨e.config, ⟨r, e.run.state⟩, .idle, none⟩
  have hcreate : (create ctx e.run.record.id).run m = (.ok e₀, m) :=
    create_run hr hnamed (htag ▸ hf)
  have hprepare : (prepare ctx e₀).run m =
      (.ok { e₀ with stepEngine := .holding b .ready, position := some p }, m) := by
    rw [prepare_run_some (e := e₀) (hid ▸ h.underway.latest)]
    exact rehydrate_run hw h.underway.current h.attempts h.step h.visits
  refine ⟨_, (Effect.bind_of_ok hcreate).trans hprepare, rfl, ?_, rfl, h.position.symm, ?_, ?_⟩
  · show r = { e.run.record with updatedAt := r.updatedAt }
    rw [hsame]
  · exact h.holds.current.symm
  · exact fun hfinished herror => (h.holds.ready hfinished herror).symm

end Engine
end CallFlow
