import CallFlow.Proofs.World.Prompting

/-! # Lingering at a step

A run may stay at a step for some calls: the step is prompted for, it fails for itself, or its
prompt is asked for again. A prompt leaves no attempt, and each of the others is one on the same
step run. So a step run that had none has as many attempts as calls of these kinds.
-/
namespace CallFlow
open Memory Work

namespace Engine
variable {ctx : Context} {e : Engine} {raw : Option String} {b : BoundStep} {error : StepError}

/-- A call fails at the step of an engine. The failure may be retried and names no other step. -/
structure Trips (ctx : Context) (e : Engine) (raw : Option String) (b : BoundStep)
    (error : StepError) : Prop where
  current : e.stepEngine.current? = some b
  fails : ∃ x, e.execution? ctx raw = some x ∧ x.outcome = .error error
  retryable : error.retryable = true
  self : targetName b.step error = b.step.name

structure Repeats (ctx : Context) (e : Engine) (raw : Option String) (b : BoundStep)
    (message : Option String) : Prop where
  current : e.stepEngine.current? = some b
  input : b.step.isInput = true
  asks : ∃ x, e.execution? ctx raw = some x ∧ x.outcome = .ok (.replay message)

end Engine

namespace World
variable {registry : Registry} {w w' : World} {id stepRun : Int} {wrong heard : Nat}

theorem step_run (registry : Registry) {slot : Nat} {e : Engine} (he : w.engine? slot = some e)
    (raw : Option String) :
    (w.step registry (.call slot (.run raw))).store =
        (e.runStep (w.context registry) raw w.store).2 ∧
      (w.step registry (.call slot (.run raw))).settings = w.settings := by
  constructor <;> simp only [step, he]
  rfl

/-- What a caller does at a step run short of answering it. The prompt is given, wrong answers are
made and the prompt is asked for again, in any order and by any engines, with anything done in
between that concerns neither the run nor the settings. -/
inductive Lingers (registry : Registry) (id stepRun : Int) (w : World) : Nat → Nat → World → Prop
  | start : Lingers registry id stepRun w 0 0 w
  | aside {wrong heard u} (a : Action) (h : Lingers registry id stepRun w wrong heard u)
      (leg : SameLeg u.store (u.step registry a).store id)
      (settings : (u.step registry a).settings = u.settings) :
      Lingers registry id stepRun w wrong heard (u.step registry a)
  | prompted {wrong heard u slot e raw b} (h : Lingers registry id stepRun w wrong heard u)
      (ready : u.Ready id slot e) (current : e.stepEngine.current? = some b)
      (input : b.step.isInput = true) (unasked : e.run.state ≠ .requestingUserInput)
      (going : e.run.state.Going) :
      Lingers registry id stepRun w wrong heard (u.step registry (.call slot (.run raw)))
  | wrong {wrong heard u slot e raw b error} (h : Lingers registry id stepRun w wrong heard u)
      (ready : u.Ready id slot e) (trips : e.Trips (u.context registry) raw b error)
      (visit : b.stepRun.record.id = stepRun) :
      Lingers registry id stepRun w (wrong + 1) heard (u.step registry (.call slot (.run raw)))
  | heard {wrong heard u slot e raw b message} (h : Lingers registry id stepRun w wrong heard u)
      (ready : u.Ready id slot e) (repeats : e.Repeats (u.context registry) raw b message)
      (visit : b.stepRun.record.id = stepRun) :
      Lingers registry id stepRun w wrong (heard + 1) (u.step registry (.call slot (.run raw)))

theorem Lingers.reaches (h : Lingers registry id stepRun w wrong heard w') :
    Reaches registry w w' := by
  induction h with
  | start => exact .refl
  | aside a _ _ _ ih => exact ih.step a
  | prompted _ _ _ _ _ _ ih | wrong _ _ _ _ ih | heard _ _ _ _ ih => exact ih.step _

/-- A call that executes the step of a step run adds one attempt to it. -/
theorem Sound.attempted {u : World} {slot : Nat} {e : Engine} {b : BoundStep} {raw : Option String}
    {x : StepBehavior.Execution} {s : StepRunRecord} (hsound : u.Sound registry)
    (hready : u.Ready id slot e) (hb : e.stepEngine.current? = some b)
    (hx : e.execution? (u.context registry) raw = some x)
    (hpossible : ∀ {failure}, ¬ e.Impossible (u.context registry) x.outcome failure)
    (hs : u.store.stepRuns.get? b.stepRun.record.id = some s) :
    (u.step registry (.call slot (.run raw))).settings = u.settings ∧
      (u.step registry (.call slot (.run raw))).store.stepRuns.get? b.stepRun.record.id = some s ∧
      ((u.step registry (.call slot (.run raw))).store.attemptsOf b.stepRun.record.id).length =
        (u.store.attemptsOf b.stepRun.record.id).length + 1 := by
  obtain ⟨hwell, p, hseated⟩ := hsound.ready_at hready hb
  obtain ⟨r, way, answer, hwent⟩ := hseated.went hsound.store hwell hx hpossible
  obtain ⟨hstore, hkept⟩ := step_run registry hready.used raw
  rw [hstore]
  exact ⟨hkept, hwent.stepRuns_get? hsound.store hs, hwent.attemptsOf_length hsound.store hseated⟩

/-- On a step run that had no attempts there are as many as wrong answers and requests to hear the
prompt again. -/
theorem Lingers.attempts {s : StepRunRecord} (h : Lingers registry id stepRun w wrong heard w')
    (hw : w.Sound registry) (hs : w.store.stepRuns.get? stepRun = some s) (hrun : s.run = id)
    (hnone : w.store.attemptsOf stepRun = []) :
    w'.settings = w.settings ∧ w'.store.stepRuns.get? stepRun = some s ∧
      (w'.store.attemptsOf stepRun).length = wrong + heard := by
  induction h with
  | start => exact ⟨rfl, hs, by rw [hnone]; rfl⟩
  | aside a _ leg settings ih =>
    obtain ⟨hsettings, hget, hlength⟩ := ih
    exact ⟨settings.trans hsettings, (leg.stepRuns hrun).mpr hget,
      by rw [leg.attempts hget hrun]; exact hlength⟩
  | @prompted _ _ u slot e raw b h ready current input unasked going ih =>
    obtain ⟨hsettings, hget, hlength⟩ := ih
    have hsound := h.reaches.sound hw
    obtain ⟨hwell, p, hseated⟩ := hsound.ready_at ready current
    -- the prompt leaves all rows alone but the one of the run
    have hfirst : e.PromptsFirst (u.context registry) u.store :=
      hseated.promptsFirst hsound.store hwell
    obtain ⟨r, e', m', -, hran, hrestates⟩ := hfirst b current input unasked going
    obtain ⟨hstore, hkept⟩ := step_run registry ready.used raw
    rw [hstore, hkept, hran raw]
    refine ⟨hsettings, ?_, ?_⟩
    · rw [hrestates.stepRuns]
      exact hget
    · rw [attemptsOf, hrestates.attempts]
      exact hlength
  | wrong h ready trips visit ih =>
    obtain ⟨hsettings, hget, hlength⟩ := ih
    subst visit
    obtain ⟨x, hx, hout⟩ := trips.fails
    obtain ⟨hkept, hstored, hmore⟩ := (h.reaches.sound hw).attempted ready trips.current hx
      (by rw [hout]; exact Engine.not_impossible_error) hget
    exact ⟨hkept.trans hsettings, hstored, by omega⟩
  | heard h ready repeats visit ih =>
    obtain ⟨hsettings, hget, hlength⟩ := ih
    subst visit
    obtain ⟨x, hx, hout⟩ := repeats.asks
    obtain ⟨hkept, hstored, hmore⟩ := (h.reaches.sound hw).attempted ready repeats.current hx
      (by rw [hout]; exact Engine.not_impossible_replay repeats.current repeats.input) hget
    exact ⟨hkept.trans hsettings, hstored, by omega⟩

end World
end CallFlow
