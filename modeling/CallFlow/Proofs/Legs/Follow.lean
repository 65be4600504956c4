import CallFlow.Proofs.Flow.Valid
import CallFlow.Proofs.Legs.Work

/-! # Moves that follow each other

Done on two units of work of which the second one mirrors the first, a move succeeds on both or
fails on both with the same failure, and leaves the mirror in place. So do moves one after the
other, and with them the whole of a call.
-/
namespace CallFlow
open Memory

def NextStep.On (leg : Int) (m : Memory) : NextStep → Prop
  | .step b => b.stepRun.On leg m
  | .exit _ => True

theorem NextStep.On.keeps {leg : Int} {m m' : Memory} {next : NextStep} (h : next.On leg m)
    (hk : m.Keeps m') : next.On leg m' := by
  cases next with
  | step b => exact StepRun.On.keeps h hk
  | exit path => trivial

def RetryTarget.On (leg : Int) (m : Memory) (t : RetryTarget) : Prop :=
  ∀ r, t.stepRun = some r → r.On leg m

namespace Work

def Renamed {α : Type} (rename : α → α) (On : Memory → α → Prop) (m : Memory) (v v' : α) : Prop :=
  v' = rename v ∧ On m v

def Same {α : Type} (_ : Memory) (v v' : α) : Prop := v' = v

abbrev Bound (ρ : Int → Int) (leg : Int) : Memory → BoundStep → BoundStep → Prop :=
  Renamed (BoundStep.rename ρ) fun m b => b.stepRun.On leg m

abbrev Ahead (ρ : Int → Int) (leg : Int) : Memory → NextStep → NextStep → Prop :=
  Renamed (NextStep.rename ρ) fun m n => n.On leg m

abbrev Told (ρ : Int → Int) (leg : Int) : Memory → Outcome → Outcome → Prop :=
  Renamed (Outcome.rename ρ) fun m o => o.next.On leg m

/-- Two moves end alike, and what was held before them is held after them. -/
inductive Alike {α : Type} (ρ : Int → Int) (leg : Int) (m : Memory) (R : Memory → α → α → Prop) :
    Except EngineError α × Work Memory → Except EngineError α × Work Memory → Prop
  | ok {v v' w w'} (keeps : m.Keeps w.applied) (mirrors : w.Mirrors ρ leg w')
      (value : R w.applied v v') : Alike ρ leg m R (.ok v, w) (.ok v', w')
  | error {e w w'} (keeps : m.Keeps w.applied) (mirrors : w.Mirrors ρ leg w') :
      Alike ρ leg m R (.error e, w) (.error e, w')

variable {α β : Type} {ρ : Int → Int} {leg : Int} {m : Memory} {w w' : Work Memory}
variable {R : Memory → α → α → Prop} {R' : Memory → β → β → Prop}

theorem Alike.of_eq {y y' z z' : Except EngineError α × Work Memory} (hz : z = y) (hz' : z' = y')
    (h : Alike ρ leg m R y y') : Alike ρ leg m R z z' := by
  rwa [hz, hz']

theorem Alike.bind {x x' : WorkM Memory α} {f f' : α → WorkM Memory β}
    (hx : Alike ρ leg m R (x.run w) (x'.run w'))
    (hf : ∀ v v' w₁ w₁', m.Keeps w₁.applied → w₁.Mirrors ρ leg w₁' → R w₁.applied v v' →
      Alike ρ leg w₁.applied R' ((f v).run w₁) ((f' v').run w₁')) :
    Alike ρ leg m R' ((x >>= f).run w) ((x' >>= f').run w') := by
  simp only [Effect.run_bind]
  generalize x.run w = y at hx
  generalize x'.run w' = y' at hx
  cases hx with
  | error keeps mirrors => exact .error keeps mirrors
  | @ok v v' w₁ w₁' keeps mirrors value =>
    have hafter := hf v v' w₁ w₁' keeps mirrors value
    simp only
    generalize (f v).run w₁ = z at hafter
    generalize (f' v').run w₁' = z' at hafter
    cases hafter with
    | error keeps' mirrors' => exact .error (keeps.trans keeps') mirrors'
    | ok keeps' mirrors' value' => exact .ok (keeps.trans keeps') mirrors' value'

section Alike
variable (hρ : StrictMono ρ) (h : w.Mirrors ρ leg w')
include h

theorem pure_alike {v v' : α} (hv : R w.applied v v') :
    Alike ρ leg w.applied R ((pure v : WorkM Memory α).run w) ((pure v' : WorkM Memory α).run w') :=
  .ok (.refl _) h hv

theorem throw_alike (e : EngineError) :
    Alike ρ leg w.applied R ((throw e : WorkM Memory α).run w) ((throw e : WorkM Memory α).run w') :=
  .error (.refl _) h

theorem ofExcept_alike (x : Except EngineError α) :
    Alike ρ leg w.applied Same ((Effect.ofExcept x : WorkM Memory α).run w)
      ((Effect.ofExcept x : WorkM Memory α).run w') := by
  cases x with
  | error e => exact .error (.refl _) h
  | ok v => exact .ok (.refl _) h rfl

theorem configured_alike (x : Except ConfigError α) :
    Alike ρ leg w.applied Same ((configured x).run w) ((configured x).run w') :=
  ofExcept_alike h _

theorem engine?_alike {f f' : Engine → WorkM Memory β}
    (hf : Alike ρ leg w.applied R' ((f w.engine).run w) ((f' (w.engine.rename ρ)).run w')) :
    Alike ρ leg w.applied R' ((engine? >>= f).run w) ((engine? >>= f').run w') := by
  rw [← h.engine] at hf
  exact hf

omit h in
theorem outcome_alike {x x' : WorkM Memory α}
    (hx : Alike ρ leg w.applied Same (x.run w) (x'.run w')) :
    Alike ρ leg w.applied Same
      ((Effect.outcome x : WorkM Memory (Except EngineError α)).run w)
      ((Effect.outcome x' : WorkM Memory (Except EngineError α)).run w') := by
  simp only [Effect.run_outcome]
  generalize x.run w = y at hx
  generalize x'.run w' = y' at hx
  cases hx with
  | error keeps mirrors => exact .ok keeps mirrors rfl
  | ok keeps mirrors value => exact .ok keeps mirrors (congrArg Except.ok value)

theorem currentStep_alike :
    Alike ρ leg w.applied (Bound ρ leg) (currentStep.run w) (currentStep.run w') := by
  refine engine?_alike h ?_
  simp only [Engine.rename, StepEngine.current?_rename]
  cases hb : w.engine.stepEngine.current? with
  | none => exact throw_alike h _
  | some b => exact pure_alike h ⟨rfl, h.left.engine.current hb⟩

include hρ

theorem setEngine_alike {e : Engine} (he : e.On leg w.applied) :
    Alike ρ leg w.applied Same ((setEngine e).run w) ((setEngine (e.rename ρ)).run w') :=
  .ok (.refl _) (h.withEngine hρ he) rfl

theorem fire_alike (t : Trigger) :
    Alike ρ leg w.applied Same ((fire t).run w) ((fire t).run w') := by
  have hrun : w'.engine.run = w.engine.run := by rw [h.engine]; rfl
  cases ht : t.fire? w.engine.run.state with
  | none =>
    rw [fire_run_error ht, fire_run_error (hrun ▸ ht), hrun]
    exact .error (.refl _) h
  | some state =>
    have ht' : t.fire? w'.engine.run.state = some state := by rw [hrun, ht]
    rw [fire_run ht, fire_run ht', h.engine]
    have he : (w.engine.inState state).On leg w.applied :=
      ⟨h.left.engine.run, h.left.engine.current, h.left.engine.position⟩
    exact .ok (.refl _) (h.withEngine hρ he) rfl

end Alike

/-! ## Entering a step -/

theorem keeps_record {wr : Write} (hw : wr.On leg w.applied.allocate) :
    w.applied.Keeps (w.applied.allocate.applyWrite wr) :=
  (keeps_allocate _).trans (keeps_applyWrite hw)

namespace On
variable (h : w.On leg)
include h

theorem contains_run : w.store.runs.contains w.engine.run.record.id = true := by
  obtain ⟨r, hr⟩ := h.run
  rw [h.engine.run]
  exact Table.contains_of_get? hr

theorem visit {s : StepRunRecord} (hid : s.id = w.store.nextId) (hrun : s.run = leg) :
    (Write.insertStepRun s).On leg w.applied.allocate := by
  obtain ⟨r, hr⟩ := h.run
  obtain ⟨c, hc⟩ := h.keeps.runs hr
  have hnext := w.applied_nextId
  refine .visit hrun hc (fun hs => ?_) ?_
  · have hlt := (h.applied.stepRuns hs).2.1
    omega
  · simp only [Memory.allocate]
    omega

theorem attempt {a : AttemptRecord} {s : StepRunRecord} (hid : a.id = w.store.nextId)
    (hs : w.applied.stepRuns.get? a.stepRun = some s) (hrun : s.run = leg) :
    (Write.insertAttempt a).On leg w.applied.allocate := by
  have hnext := w.applied_nextId
  refine .attempt hs hrun (fun ha => ?_) ?_
  · have hlt := (h.applied.attempts ha).2.1
    omega
  · simp only [Memory.allocate]
    omega

theorem place {p : PositionRecord} {s : StepRunRecord} (hid : p.id = w.store.nextId)
    (hleg : p.run = leg) (hs : w.applied.stepRuns.get? p.stepRun = some s) (hrun : s.run = leg) :
    (Write.insertPosition p).On leg w.applied.allocate := by
  have hnext := w.applied_nextId
  refine .position hleg hs hrun (fun hp => ?_) ?_
  · have hlt := (h.applied.positions hp).2.1
    omega
  · simp only [Memory.allocate]
    omega

theorem pushed {r : StepRun} {a : AttemptRecord} (hr : r.On leg w.applied)
    (hid : a.id = w.store.nextId) (hstep : a.stepRun = r.record.id) :
    (r.push a).On leg (w.applied.allocate.applyWrite (.insertAttempt a)) := by
  obtain ⟨s, hs, hrun⟩ := hr.known
  have hkept := hr.keeps (keeps_record (h.attempt hid (hstep ▸ hs) hrun))
  refine ⟨hkept.known, fun c hc => ?_⟩
  rcases List.mem_append.mp hc with hc | hc
  · exact hkept.attempts c hc
  · obtain rfl := List.mem_singleton.mp hc
    have hgiven := w.applied_nextId
    have hlt := (h.applied.stepRuns hs).2.1
    rw [applyWrite_nextId, hid, hstep]
    simp only [Memory.allocate]
    omega

end On

theorem applied_record (w : Work Memory) (wr : Write) (e : Engine) :
    applied ⟨w.store.allocate, w.snapshot.stage wr, e⟩ = w.applied.allocate.applyWrite wr := by
  rw [← applied_allocate]
  exact applied_stage { w with store := w.store.allocate, engine := e } wr

section Entering
variable (hρ : StrictMono ρ) (h : w.Mirrors ρ leg w')
include hρ h

/-- A record under a new id is staged on both sides. -/
theorem Mirrors.record {wr wr' : Write} {e e' : Engine} (hw : wr.On leg w.applied.allocate)
    (hw' : wr'.On leg w'.applied.allocate) (hc : w.store.checkWrite w.snapshot wr = .ok ())
    (hc' : w'.store.checkWrite w'.snapshot wr' = .ok ())
    (he : e.On leg (w.applied.allocate.applyWrite wr)) (hwr : wr' = wr.rename ρ)
    (hengine : e' = e.rename ρ) :
    w.applied.Keeps (Work.applied ⟨w.store.allocate, w.snapshot.stage wr, e⟩) ∧
      Mirrors ρ leg ⟨w.store.allocate, w.snapshot.stage wr, e⟩
        ⟨w'.store.allocate, w'.snapshot.stage wr', e'⟩ := by
  subst hwr hengine
  have hgiven := h.allocate
  have hkeeps := keeps_record hw
  rw [← applied_allocate] at hw hw'
  have hstaged := hgiven.stage hρ hw hw' ((checkWrite_allocate _ _ _).trans hc)
    ((checkWrite_allocate _ _ _).trans hc')
  refine ⟨?_, hstaged.withEngine hρ ?_⟩
  · rw [applied_record]
    exact hkeeps
  · rw [applied_stage, applied_allocate]
    exact he

theorem placeStep_alike (step : Step) (existing : Option StepRun)
    (he : ∀ r, existing = some r → r.On leg w.applied) :
    Alike ρ leg w.applied (Bound ρ leg) ((placeStep step existing).run w)
      ((placeStep step (existing.map (StepRun.rename ρ))).run w') := by
  cases existing with
  | some r =>
    have hr := he r rfl
    have hengine : (w.engine.holding ⟨step, r⟩ .ready).On leg w.applied :=
      ⟨h.left.engine.run, by rintro _ ⟨⟩; exact hr, h.left.engine.position⟩
    rw [Option.map_some, placeStep_run_bound, placeStep_run_bound, h.engine]
    exact .ok (.refl _) (h.withEngine hρ hengine) ⟨rfl, hr⟩
  | none =>
    let s := w.engine.newVisit step w.store.nextId w.store.clock
    let b := w.engine.visiting step w.store.nextId w.store.clock
    have hs : w'.engine.newVisit step w'.store.nextId w'.store.clock = s.rename ρ := by
      rw [h.engine, h.store.clock, ← h.store.nextId]
      rfl
    have hb : w'.engine.visiting step w'.store.nextId w'.store.clock = b.rename ρ := by
      simp only [Engine.visiting, hs]
      rfl
    have hrun : s.run = leg := h.left.engine.run
    have hnew : (w.applied.allocate.applyWrite (.insertStepRun s)).stepRuns.get? s.id = some s :=
      Table.get?_insert_self _ _ _
    have hbound : b.stepRun.On leg (w.applied.allocate.applyWrite (.insertStepRun s)) :=
      ⟨⟨s, hnew, hrun⟩, fun a ha => absurd ha List.not_mem_nil⟩
    have hw : (Write.insertStepRun s).On leg w.applied.allocate := h.left.visit rfl hrun
    have hw' := h.right.visit (s := w'.engine.newVisit step w'.store.nextId w'.store.clock) rfl
      h.right.engine.run
    have hengine := h.left.engine.keeps (keeps_record hw)
    have hheld : (w.engine.holding b .ready).On leg
        (w.applied.allocate.applyWrite (.insertStepRun s)) :=
      ⟨hengine.run, by rintro _ ⟨⟩; exact hbound, hengine.position⟩
    have hsame : w'.engine.holding (w'.engine.visiting step w'.store.nextId w'.store.clock) .ready =
        (w.engine.holding b .ready).rename ρ := by
      rw [hb, h.engine]
      rfl
    obtain ⟨hk, hmirrors⟩ := h.record hρ hw hw' rfl rfl hheld (congrArg _ hs) hsame
    rw [Option.map_none, placeStep_afterVisit w step h.left.contains_run,
      placeStep_afterVisit w' step h.right.contains_run]
    exact .ok hk hmirrors ⟨hb, applied_record w _ _ ▸ hbound⟩

theorem insertPosition_alike {stepRun : Int}
    (hs : ∃ s, w.applied.stepRuns.get? stepRun = some s ∧ s.run = leg) :
    Alike ρ leg w.applied
      (Renamed (PositionRecord.rename ρ) fun m p =>
        ∃ q, m.positions.get? p.id = some q ∧ q.run = leg ∧ q.stepRun = p.stepRun)
      ((stage (Backend.insertPosition (σ := Memory)
        ⟨w.engine.run.record.id, stepRun, w.engine.nextOrder⟩)).run w)
      ((stage (Backend.insertPosition (σ := Memory)
        ⟨(w.engine.rename ρ).run.record.id, ρ stepRun, (w.engine.rename ρ).nextOrder⟩)).run w') := by
  obtain ⟨s, hs, hrun⟩ := hs
  have hs' := h.applied.stepRun h.left.applied h.right.applied hs hrun
  have horder : (w.engine.rename ρ).nextOrder = w.engine.nextOrder := by
    simp only [Engine.nextOrder, Engine.rename, Option.map_map]
    rfl
  have htaken : (Snapshot.hasOrder w'.snapshot w'.engine.run.record.id w'.engine.nextOrder ||
      w'.store.hasOrder w'.engine.run.record.id w'.engine.nextOrder) =
      (Snapshot.hasOrder w.snapshot w.engine.run.record.id w.engine.nextOrder ||
        w.store.hasOrder w.engine.run.record.id w.engine.nextOrder) := by
    have hid : (w.engine.rename ρ).run.record.id = leg := h.left.engine.run
    rw [h.engine, horder, h.snapshot, Snapshot.hasOrder_rename, hid, h.store.hasOrder,
      h.left.engine.run]
  rw [← h.engine, insertPosition_afterPosition w stepRun (knowsStepRun_of_applied hs),
    insertPosition_afterPosition w' (ρ stepRun) (knowsStepRun_of_applied hs'), htaken]
  cases ht : Snapshot.hasOrder w.snapshot w.engine.run.record.id w.engine.nextOrder ||
    w.store.hasOrder w.engine.run.record.id w.engine.nextOrder with
  | true =>
    have hid : w'.engine.run.record.id = w.engine.run.record.id :=
      h.right.engine.run.trans h.left.engine.run.symm
    simp only [if_true, hid]
    exact .error (.refl _) h
  | false =>
    let p := w.engine.newPosition stepRun w.store.nextId w.store.clock
    let p' := w'.engine.newPosition (ρ stepRun) w'.store.nextId w'.store.clock
    have hp : p' = p.rename ρ := by
      simp only [p', p, Engine.newPosition, h.engine, horder, h.store.clock, ← h.store.nextId]
      rfl
    have hfree : w.store.hasOrder p.run p.order = false := (Bool.or_eq_false_iff.mp ht).2
    have hfree' : w'.store.hasOrder p'.run p'.order = false :=
      (Bool.or_eq_false_iff.mp (htaken.trans ht)).2
    have hw := h.left.place (p := p) rfl h.left.engine.run hs hrun
    have hw' := h.right.place (p := p') rfl h.right.engine.run hs' hrun
    have hengine := h.left.engine.keeps (keeps_record hw)
    obtain ⟨hk, hmirrors⟩ := h.record hρ hw hw' (if_neg (Bool.eq_false_iff.mp hfree))
      (if_neg (Bool.eq_false_iff.mp hfree')) hengine (congrArg _ hp) h.engine
    have hnew : (w.applied.allocate.applyWrite (.insertPosition p)).positions.get? p.id = some p :=
      Table.get?_insert_self _ _ _
    simp only [Bool.false_eq_true, if_false]
    exact .ok hk hmirrors ⟨hp, p, applied_record w _ _ ▸ hnew, h.left.engine.run, rfl⟩

theorem enterStep_alike (step : Step) (existing : Option StepRun)
    (he : ∀ r, existing = some r → r.On leg w.applied) :
    Alike ρ leg w.applied (Bound ρ leg) ((enterStep step existing).run w)
      ((enterStep step (existing.map (StepRun.rename ρ))).run w') := by
  refine (placeStep_alike hρ h step existing he).bind fun bound bound' w₁ w₁' hk₁ h₁ hbound => ?_
  obtain ⟨rfl, hbound⟩ := hbound
  refine engine?_alike h₁ ?_
  refine (insertPosition_alike hρ h₁ hbound.known).bind fun p p' w₂ w₂' hk₂ h₂ hp => ?_
  obtain ⟨rfl, hp⟩ := hp
  have he₁ := h₁.left.engine.keeps hk₂
  have he₂ : (w₁.engine.located p).On leg w₂.applied :=
    ⟨he₁.run, he₁.current, by rintro _ ⟨⟩; exact hp⟩
  refine (setEngine_alike hρ h₂ he₂).bind fun _ _ w₃ w₃' hk₃ h₃ _ => ?_
  exact pure_alike h₃ ⟨rfl, hbound.keeps (hk₂.trans hk₃)⟩

theorem advance_alike (step : Step) :
    Alike ρ leg w.applied (Bound ρ leg) ((advance step).run w) ((advance step).run w') :=
  (fire_alike hρ h _).bind fun _ _ _ _ _ h₁ _ => enterStep_alike hρ h₁ step none nofun

end Entering

/-! ## Executing a step -/

theorem attempt_not_ready (ctx : Context) (raw : Option String) {w : Work Memory}
    (h : ∀ b, w.engine.stepEngine ≠ .holding b .ready) :
    (attempt ctx raw).run w = (.error (.stepNotReady w.engine.stepEngine.stateName), w) := by
  obtain ⟨store, snapshot, ⟨config, run, stepEngine, position⟩⟩ := w
  cases stepEngine with
  | idle => rfl
  | holding b progress =>
    cases progress with
    | ready => exact absurd rfl (h b)
    | complete => rfl
    | failed => rfl

section Executing
variable (hρ : StrictMono ρ) (h : w.Mirrors ρ leg w')
include hρ h

theorem attempt_alike (ctx : Context) (raw : Option String) :
    Alike ρ leg w.applied Same ((attempt ctx raw).run w) ((attempt ctx raw).run w') := by
  have hengine' : w'.engine.stepEngine = w.engine.stepEngine.rename ρ := by
    rw [h.engine]
    rfl
  by_cases hready : ∃ b, w.engine.stepEngine = .holding b .ready
  · obtain ⟨b, hb⟩ := hready
    have hb' : w'.engine.stepEngine = .holding (b.rename ρ) .ready := by
      rw [hengine', hb]
      rfl
    have hrun : w'.engine.run = w.engine.run := by
      rw [h.engine]
      rfl
    have hbound : b.stepRun.On leg w.applied := by
      apply h.left.engine.current
      rw [hb]
      rfl
    obtain ⟨s, hs, hleg⟩ := hbound.known
    have hs' := h.applied.stepRun h.left.applied h.right.applied hs hleg
    let x := b.step.behavior.execute ctx.services raw w.engine.run.record.session
    let a := b.newAttempt raw x w.store.nextId w.store.clock
    let a' := (b.rename ρ).newAttempt raw x w'.store.nextId w'.store.clock
    have ha : a' = a.rename ρ := by
      simp only [a', a, BoundStep.newAttempt, h.store.clock, ← h.store.nextId]
      rfl
    have hpushed : (b.rename ρ).stepRun.push a' = (b.stepRun.push a).rename ρ := by
      simp only [ha, StepRun.push, StepRun.rename, BoundStep.rename, List.map_append,
        List.map_cons, List.map_nil]
    have hw := h.left.attempt (a := a) rfl hs hleg
    have hw' := h.right.attempt (a := a') rfl hs' hleg
    have hold := h.left.engine.keeps (keeps_record hw)
    have hengine : (w.afterAttempt raw b x).engine.On leg
        (w.applied.allocate.applyWrite (.insertAttempt a)) := by
      refine ⟨hold.run, ?_, hold.position⟩
      rintro _ ⟨⟩
      exact h.left.pushed hbound rfl rfl
    have hafter : (w'.afterAttempt raw (b.rename ρ) x).engine =
        (w.afterAttempt raw b x).engine.rename ρ := by
      show ({ w'.engine with
        stepEngine := .holding { b with stepRun := (b.rename ρ).stepRun.push a' }
          (StepEngine.conclude x.outcome).1
        run := w'.engine.run.withSession x.session } : Engine) = _
      rw [hpushed, h.engine]
      rfl
    obtain ⟨hk, hmirrors⟩ := h.record hρ hw hw' rfl rfl hengine (congrArg _ ha) hafter
    rw [attempt_afterAttempt ctx raw w hb (knowsStepRun_of_applied hs),
      attempt_afterAttempt ctx raw w' hb' (knowsStepRun_of_applied hs'), hrun]
    exact .ok hk hmirrors rfl
  · have hready : ∀ b, w.engine.stepEngine ≠ .holding b .ready := fun b hb => hready ⟨b, hb⟩
    have hready' : ∀ b, w'.engine.stepEngine ≠ .holding b .ready := by
      intro b' hb'
      rw [hengine'] at hb'
      obtain ⟨b, hb⟩ := StepEngine.ready_of_rename ρ hb'
      exact hready b hb
    rw [attempt_not_ready ctx raw hready, attempt_not_ready ctx raw hready', hengine',
      StepEngine.stateName_rename]
    exact .error (.refl _) h

end Executing

/-! ## Going on -/

theorem lastOn_rename (ρ : Int → Int) (branch : String) (history : List HistoryEntry) :
    lastOn branch (history.map (HistoryEntry.rename ρ)) = lastOn branch history := by
  simp only [lastOn, ← List.map_reverse, List.find?_map, Option.map_map]
  rfl

section Going
variable (hρ : StrictMono ρ) (h : w.Mirrors ρ leg w')

include h in
theorem nextOn_alike (ctx : Context) (branch : String) (justSwitched : Bool) :
    Alike ρ leg w.applied Same ((nextOn ctx branch justSwitched).run w)
      ((nextOn ctx branch justSwitched).run w') := by
  have hconfig : w'.engine.config = w.engine.config := by rw [h.engine]; rfl
  have hhistory := h.store.historyOf h.left.sound h.right.sound
  cases hb : w.engine.config.tree.branch branch with
  | error e =>
    have hfails {w : Work Memory} (hb : w.engine.config.tree.branch branch = .error e) :
        (nextOn ctx branch justSwitched).run w = (.error (.config e), w) := by
      refine (Effect.bind_of_ok (engine?_run _)).trans (Effect.bind_of_error ?_)
      rw [hb]
      rfl
    rw [hfails hb, hfails (hconfig ▸ hb)]
    exact .error (.refl _) h
  | ok b =>
    obtain rfl := StepTree.branch_name hb
    rw [nextOn_run ctx justSwitched h.left.sound hb,
      nextOn_run ctx justSwitched h.right.sound (hconfig ▸ hb), h.left.engine.run,
      h.right.engine.run, hhistory, lastOn_rename]
    exact ofExcept_alike h _

include hρ h

theorem leave_alike (exit : ExitPath) :
    Alike ρ leg w.applied (Ahead ρ leg) ((leave exit).run w) ((leave exit).run w') :=
  (fire_alike hρ h _).bind fun _ _ _ _ _ h₁ _ => pure_alike h₁ ⟨rfl, trivial⟩

theorem proceed_alike (ctx : Context) :
    Alike ρ leg w.applied (Ahead ρ leg) ((proceed ctx).run w) ((proceed ctx).run w') := by
  refine (currentStep_alike h).bind fun b _ w₁ w₁' _ h₁ hb => ?_
  obtain ⟨rfl, -⟩ := hb
  refine engine?_alike h₁ ((configured_alike h₁ _).bind fun t _ w₂ w₂' _ h₂ ht => ?_)
  cases ht
  cases t.exitPath with
  | some exit =>
    refine (configured_alike h₂ _).bind fun path _ w₃ w₃' _ h₃ hpath => ?_
    cases hpath
    exact leave_alike hρ h₃ path
  | none =>
    refine (nextOn_alike h₂ _ _ _).bind fun next _ w₃ w₃' _ h₃ hnext => ?_
    cases hnext
    refine (advance_alike hρ h₃ next).bind fun bound _ w₄ w₄' _ h₄ hbound => ?_
    obtain ⟨rfl, hbound⟩ := hbound
    exact pure_alike h₄ ⟨rfl, hbound⟩

theorem handleResult_alike (ctx : Context) (result : StepResult) :
    Alike ρ leg w.applied (Told ρ leg) ((handleResult ctx result).run w)
      ((handleResult ctx result).run w') := by
  have hproceed : Alike ρ leg w.applied (Told ρ leg)
      ((do return ⟨result, ← proceed ctx⟩ : WorkM Memory Outcome).run w)
      ((do return ⟨result, ← proceed ctx⟩ : WorkM Memory Outcome).run w') := by
    refine (proceed_alike hρ h ctx).bind fun next _ w₁ w₁' _ h₁ hnext => ?_
    obtain ⟨rfl, hnext⟩ := hnext
    exact pure_alike h₁ ⟨rfl, hnext⟩
  cases result with
  | replay message =>
    refine (fire_alike hρ h _).bind fun _ _ w₁ w₁' _ h₁ _ => ?_
    refine (currentStep_alike h₁).bind fun b _ w₂ w₂' _ h₂ hb => ?_
    obtain ⟨rfl, hb⟩ := hb
    refine (placeStep_alike hρ h₂ b.step (some b.stepRun) ?_).bind
      fun bound _ w₃ w₃' _ h₃ hbound => ?_
    · rintro _ ⟨⟩
      exact hb
    · obtain ⟨rfl, hbound⟩ := hbound
      exact pure_alike h₃ ⟨rfl, hbound⟩
  | exitQueue queue =>
    refine (configured_alike h _).bind fun path _ w₁ w₁' _ h₁ hpath => ?_
    cases hpath
    refine (leave_alike hρ h₁ path).bind fun next _ w₂ w₂' _ h₂ hnext => ?_
    obtain ⟨rfl, hnext⟩ := hnext
    exact pure_alike h₂ ⟨rfl, hnext⟩
  | success | inputSuccess | error => exact hproceed

end Going

/-! ## Recovering -/

section Recovering
variable (hρ : StrictMono ρ) (h : w.Mirrors ρ leg w')
include hρ h

theorem markBranched_alike {p : PositionRecord}
    (hp : ∃ q, w.applied.positions.get? p.id = some q ∧ q.run = leg ∧ q.stepRun = p.stepRun) :
    Alike ρ leg w.applied Same
      ((stage fun s => do return ((), ← Backend.markBranched (σ := Memory) p.id s)).run w)
      ((stage fun s => do return ((), ← Backend.markBranched (σ := Memory) (ρ p.id) s)).run w') := by
  obtain ⟨q, hq, hrun, -⟩ := hp
  have hq' := h.applied.position h.left.applied h.right.applied hq hrun
  have hknown : w.store.knowsPosition w.snapshot p.id = true := knowsPosition_of_applied hq
  have hknown' : w'.store.knowsPosition w'.snapshot (ρ p.id) = true :=
    knowsPosition_of_applied hq'
  have hw : (Write.markBranched p.id).On leg w.applied := .mark hq hrun
  have hw' : (Write.markBranched (ρ p.id)).On leg w'.applied := .mark hq' hrun
  have hkeeps := keeps_applyWrite hw
  simp only [stage, markBranched_run, if_pos hknown, if_pos hknown']
  refine .ok ?_ (h.stage hρ hw hw' (if_pos hknown) (if_pos hknown')) rfl
  rw [applied_stage]
  exact hkeeps

theorem switchOrStop_alike (ctx : Context) (step : Step) (reason : StopReason) :
    Alike ρ leg w.applied (Told ρ leg) ((switchOrStop ctx step reason).run w)
      ((switchOrStop ctx step reason).run w') := by
  unfold switchOrStop
  cases step.switchTarget with
  | none => exact throw_alike h _
  | some branch =>
    refine (outcome_alike (nextOn_alike h _ _ _)).bind fun next _ w₁ w₁' _ h₁ hnext => ?_
    cases hnext
    split
    · exact throw_alike h₁ _
    · exact throw_alike h₁ _
    · refine engine?_alike h₁ ?_
      simp only [Engine.rename]
      cases hp : w₁.engine.position with
      | none => exact throw_alike h₁ _
      | some p =>
        have hheld := h₁.left.engine.position hp
        refine (markBranched_alike hρ h₁ hheld).bind fun _ _ w₂ w₂' hk₂ h₂ _ => ?_
        refine engine?_alike h₂ ?_
        let left : PositionRecord := { p with branchedOnError := true }
        have hengine : ((w₂.engine.located left).onBranch branch).On leg w₂.applied := by
          obtain ⟨q, hq, hrun, hstep⟩ := hheld
          obtain ⟨q', hq', hrun', hstep'⟩ := hk₂.positions hq
          refine ⟨h₂.left.engine.run, h₂.left.engine.current, ?_⟩
          rintro _ ⟨⟩
          exact ⟨q', hq', hrun'.trans hrun, hstep'.trans hstep⟩
        refine (setEngine_alike hρ h₂ hengine).bind fun _ _ w₃ w₃' _ h₃ _ => ?_
        refine (fire_alike hρ h₃ _).bind fun _ _ w₄ w₄' _ h₄ _ => ?_
        refine (advance_alike hρ h₄ _).bind fun bound _ w₅ w₅' _ h₅ hbound => ?_
        obtain ⟨rfl, hbound⟩ := hbound
        exact pure_alike h₅ ⟨rfl, hbound⟩

omit hρ in
theorem otherTarget_alike (ctx : Context) (step : Step) (name : String) :
    Alike ρ leg w.applied
      (Renamed (Option.map (RetryTarget.rename ρ)) fun m target =>
        ∀ t, target = some t → t.On leg m)
      ((otherTarget ctx step name).run w) ((otherTarget ctx step name).run w') := by
  refine engine?_alike h ((configured_alike h _).bind fun branch _ w₁ w₁' _ h₁ hbranch => ?_)
  cases hbranch
  cases branch.step? name with
  | none => exact pure_alike h₁ ⟨rfl, fun _ ht => by cases ht⟩
  | some template =>
    dsimp only
    cases Step.ofTemplate template step.branch ctx.registry with
    | error failure => exact .error (.refl _) h₁
    | ok target =>
      have hrun : (w.engine.rename ρ).run.record.id = w.engine.run.record.id := rfl
      have hfound := h₁.store.findStepRun step.branch name
      refine .of_eq ((Effect.bind_of_ok (configured_run_ok rfl)).trans (found_run target _ _ _ w₁))
        ((Effect.bind_of_ok (configured_run_ok rfl)).trans (found_run target _ _ _ w₁')) ?_
      rw [hrun, h.left.engine.run, hfound]
      refine .ok (.refl _) h₁ ⟨?_, ?_⟩
      · cases hs : w₁.store.findStepRun leg step.branch name with
        | none => rfl
        | some s =>
          obtain ⟨hget, hleg, -⟩ := h₁.left.sound.findStepRun hs
          have hattempts := h₁.store.attempts hget hleg
          simp only [Option.map_some, RetryTarget.rename, StepRun.rename, ← hattempts]
          rfl
      · rintro _ ⟨⟩ r hr
        obtain ⟨s, hs, rfl⟩ := Option.map_eq_some_iff.mp hr
        obtain ⟨hget, hleg, -⟩ := h₁.left.sound.findStepRun hs
        refine ⟨⟨s, h₁.left.keeps.stepRuns hget, hleg⟩, fun a ha => ?_⟩
        obtain ⟨⟨id, hid⟩, hstep⟩ := mem_attemptsOf.mp ha
        obtain ⟨rfl, hlt, -⟩ := h₁.left.sound.attempts hid
        have hle := h₁.left.keeps.nextId
        have hlt' := (h₁.left.sound.stepRuns hget).2.1
        omega

theorem retry_alike (ctx : Context) (step : Step) (error : StepError) {target : RetryTarget}
    (ht : target.On leg w.applied) (retryingSelf : Bool) :
    Alike ρ leg w.applied (Told ρ leg) ((retry ctx step error target retryingSelf).run w)
      ((retry ctx step error (target.rename ρ) retryingSelf).run w') := by
  have hprior : priorAttempts (target.rename ρ) retryingSelf =
      priorAttempts target retryingSelf := by
    have hcount : (target.rename ρ).stepRun.map StepRun.runCount =
        target.stepRun.map StepRun.runCount := by
      rw [RetryTarget.rename, Option.map_map]
      refine congrArg (Option.map · target.stepRun) (funext fun r => ?_)
      exact List.length_map _
    simp only [priorAttempts, hcount]
  have hstep : (target.rename ρ).step = target.step := rfl
  unfold retry
  simp only [hprior, hstep]
  by_cases hspent : priorAttempts target retryingSelf ≥ ctx.budget target.step
  · simp only [if_pos hspent]
    exact switchOrStop_alike hρ h _ _ _
  simp only [if_neg hspent]
  refine (fire_alike hρ h _).bind fun _ _ w₁ w₁' hk₁ h₁ _ => ?_
  have ht₁ : ∀ r, target.stepRun = some r → r.On leg w₁.applied :=
    fun r hr => (ht r hr).keeps hk₁
  split
  · refine (placeStep_alike hρ h₁ _ _ ht₁).bind fun bound _ w₂ w₂' _ h₂ hbound => ?_
    obtain ⟨rfl, hbound⟩ := hbound
    exact pure_alike h₂ ⟨rfl, hbound⟩
  · refine (enterStep_alike hρ h₁ _ _ ht₁).bind fun bound _ w₂ w₂' _ h₂ hbound => ?_
    obtain ⟨rfl, hbound⟩ := hbound
    exact pure_alike h₂ ⟨rfl, hbound⟩

theorem handleError_alike (ctx : Context) (error : StepError) :
    Alike ρ leg w.applied (Told ρ leg) ((handleError ctx error).run w)
      ((handleError ctx error).run w') := by
  refine (currentStep_alike h).bind fun b _ w₁ w₁' _ h₁ hb => ?_
  obtain ⟨rfl, hb⟩ := hb
  refine (fire_alike hρ h₁ _).bind fun _ _ w₂ w₂' hk₂ h₂ _ => ?_
  have hstep : (b.rename ρ).step = b.step := rfl
  simp only [hstep]
  split
  · exact switchOrStop_alike hρ h₂ _ _ _
  · split
    · have htarget : RetryTarget.On leg w₂.applied ⟨b.step, some b.stepRun⟩ := by
        rintro _ ⟨⟩
        exact hb.keeps hk₂
      exact retry_alike hρ h₂ ctx b.step error htarget true
    · refine (otherTarget_alike h₂ _ _ _).bind fun target _ w₃ w₃' _ h₃ htarget => ?_
      obtain ⟨rfl, htarget⟩ := htarget
      cases target with
      | none => exact switchOrStop_alike hρ h₃ _ _ _
      | some target => exact retry_alike hρ h₃ ctx b.step error (htarget _ rfl) false

end Recovering

/-! ## Whole calls -/

section Calls
variable (hρ : StrictMono ρ) (h : w.Mirrors ρ leg w')
include hρ h

theorem executeStep_alike (ctx : Context) (raw : Option String) :
    Alike ρ leg w.applied (Told ρ leg) ((executeStep ctx raw).run w)
      ((executeStep ctx raw).run w') := by
  refine (attempt_alike hρ h ctx raw).bind fun outcome _ w₁ w₁' _ h₁ hsame => ?_
  cases hsame
  cases outcome with
  | ok result => exact handleResult_alike hρ h₁ ctx result
  | error e => exact handleError_alike hρ h₁ ctx e

theorem takeUp_alike (isInput : Bool) :
    Alike ρ leg w.applied Same ((takeUp isInput).run w) ((takeUp isInput).run w') := by
  refine engine?_alike h ?_
  have hrun : (w.engine.rename ρ).run = w.engine.run := rfl
  rw [hrun]
  cases w.engine.run.state with
  | initialized => exact fire_alike hρ h _
  | stepInProgress => exact pure_alike h rfl
  | requestingUserInput =>
    cases isInput with
    | true => exact pure_alike h rfl
    | false => exact throw_alike h _
  | uninitialized | processingInput | error | finished => exact throw_alike h _

theorem callStep_alike (ctx : Context) (raw : Option String) :
    Alike ρ leg w.applied (Told ρ leg) ((callStep ctx raw).run w) ((callStep ctx raw).run w') := by
  refine (currentStep_alike h).bind fun b _ w₁ w₁' _ h₁ hb => ?_
  obtain ⟨rfl, hb⟩ := hb
  have hstep : (b.rename ρ).step = b.step := rfl
  simp only [hstep]
  refine (takeUp_alike hρ h₁ _).bind fun _ _ w₂ w₂' hk₂ h₂ _ => ?_
  split
  · refine engine?_alike h₂ ?_
    have hrun : (w₂.engine.rename ρ).run = w₂.engine.run := rfl
    simp only [hrun]
    split
    · exact (fire_alike hρ h₂ _).bind fun _ _ _ _ _ h₃ _ => executeStep_alike hρ h₃ ctx raw
    · refine (fire_alike hρ h₂ _).bind fun _ _ w₃ w₃' hk₃ h₃ _ => ?_
      exact pure_alike h₃ ⟨rfl, hb.keeps (hk₂.trans hk₃)⟩
  · exact executeStep_alike hρ h₂ ctx raw

theorem enterFirst_alike (ctx : Context) :
    Alike ρ leg w.applied Same ((enterFirst ctx).run w) ((enterFirst ctx).run w') := by
  refine engine?_alike h ((configured_alike h _).bind fun branch _ w₁ w₁' _ h₁ hbranch => ?_)
  cases hbranch
  cases branch.steps with
  | nil => exact throw_alike h₁ _
  | cons template rest =>
    refine (configured_alike h₁ _).bind fun step _ w₂ w₂' _ h₂ hstep => ?_
    cases hstep
    refine (enterStep_alike hρ h₂ step none nofun).bind fun _ _ w₃ w₃' _ h₃ _ => ?_
    exact fire_alike hρ h₃ _

end Calls
end Work
end CallFlow
