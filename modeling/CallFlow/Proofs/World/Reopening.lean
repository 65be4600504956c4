import CallFlow.Proofs.World.Deployed

/-! # Engines between callbacks

Nothing is kept in memory between callbacks. After every call that was committed, and after every
preparation of an engine that was not overtaken, a fresh engine that is opened on the store holds
what the engine of the call does.
-/
namespace CallFlow
open Memory

namespace Engine

/-- A fresh engine of the run is opened, the store stays as it is, and the fresh engine agrees
with this one. -/
def ReadsBack (ctx : Context) (m : Memory) (e e' : Engine) : Prop :=
  (fresh ctx e.run.record.id).run m = (.ok e', m) ∧ e.Agrees e'

variable {ctx : Context} {m : Memory} {e e' : Engine} {b : BoundStep}
variable {answer : Except EngineError Outcome}

theorem Answered.next_step {result : StepResult} {s : BoundStep} (h : e.Answered b answer)
    (hs : answer = .ok ⟨result, .step s⟩) : e.stepEngine = .holding s .ready := by
  cases h with
  | step ready => cases hs; exact ready
  | exit => cases hs
  | stop => cases hs

/-- The run is finished by the calls that answer with an exit, and by no other. -/
theorem Answered.next_exit_iff (h : e.Answered b answer) :
    (∃ result path, answer = .ok ⟨result, .exit path⟩) ↔ e.run.state = .finished := by
  cases h with
  | step ready state =>
    constructor
    · rintro ⟨_, _, ⟨⟩⟩
    · intro hfinished
      rw [hfinished] at state
      rcases state with hs | hs <;> cases hs
  | exit state => exact ⟨fun _ => state, fun _ => ⟨_, _, rfl⟩⟩
  | stop state =>
    constructor
    · rintro ⟨_, _, ⟨⟩⟩
    · intro hfinished
      rw [hfinished] at state
      cases state

end Engine

namespace World
variable {registry : Registry} {w : World} {slot : Nat} {e : Engine}

namespace Sound
variable (h : w.Sound registry) (he : w.engine? slot = some e)
include h he

/-- A seated engine that comes of an engine in use can be read back. -/
theorem readsBack {used : Engine} {m : Memory} {p : PositionRecord} {b : BoundStep}
    (hconfig : used.config = e.config)
    (htag : used.run.record.configTag = e.run.record.configTag)
    (hseated : used.Seated registry m p b) :
    ∃ e', used.ReadsBack (w.context registry) m e' := by
  have hflow := (h.engines he).flow
  have hw := h.flows hflow
  rw [← hconfig] at hw
  rw [← hconfig, ← htag] at hflow
  exact hseated.fresh_agrees (w.context registry) hw hflow

theorem readsBack_turn {e' : Engine} {x : Change} {n : Int} {p : PositionRecord} {b : BoundStep}
    {r : RunRecord} (hturn : e.Turn registry w.store x n e' p b)
    (hr : w.store.runs.get? e.run.record.id = some r) (hv : r.version = e.run.record.version) :
    ∃ e₁, (e'.atVersion (r.version + 1)).ReadsBack (w.context registry)
      (w.store.post x n (e'.stored (r.version + 1) w.store.clock)) e₁ :=
  h.readsBack he hturn.same.config hturn.same.configTag (h.turn_seated he hturn hr hv)

theorem runStep_readsBack {raw : Option String} {answer : Except EngineError Outcome}
    {used : Engine} {m : Memory}
    (hrun : e.runStep (w.context registry) raw w.store = ((answer, used), m))
    (hcommitted : Committed answer) :
    used.run.record.id = e.run.record.id ∧ ∃ e', used.ReadsBack (w.context registry) m e' ∧
      (∀ result s, answer = .ok ⟨result, .step s⟩ → e'.stepEngine.current? = some s) ∧
      ((∃ result path, answer = .ok ⟨result, .exit path⟩) ↔ e'.run.state = .finished) := by
  have hadmitted := h.engines he
  have hw := h.flows hadmitted.flow
  rcases Engine.runStep_cases (w.context registry) h.store hw hadmitted raw with
    ⟨hrefused, -⟩ | ⟨answer', x, n, e₁, p, b, r, hturn, hanswered, hr, hv, hturned⟩
  · rw [hrun] at hrefused
    exact absurd hcommitted hrefused
  · obtain ⟨e', hback⟩ := h.readsBack_turn he hturn hr hv
    rw [hrun] at hturned
    cases hturned
    refine ⟨hturn.same.id, e', hback, fun result s hs => ?_, ?_⟩
    · rw [hback.2.current]
      exact congrArg StepEngine.current? (hanswered.next_step hs)
    · rw [hback.2.state]
      exact hanswered.next_exit_iff

theorem prepare_readsBack {used : Engine} {m : Memory}
    (hrun : (e.prepare (w.context registry)).run w.store = (.ok used, m))
    (hstale : ¬ e.Stale w.store) :
    used.run.record.id = e.run.record.id ∧ ∃ e', used.ReadsBack (w.context registry) m e' := by
  have hcalled := h.call_called he .prepare
  have hcall : e.call (w.context registry) w.store .prepare = (some used, m) := by
    simp only [Engine.call, hrun]
  rw [hcall] at hcalled
  cases hcalled with
  | read same seated =>
    obtain ⟨p, b, hseated⟩ := seated hstale
    exact ⟨same.id, h.readsBack he same.config same.configTag hseated⟩
  | turned turn stored version => exact ⟨turn.same.id, h.readsBack_turn he turn stored version⟩

end Sound

/-- Nothing is kept in memory between callbacks. The next step of an answer is the step that is
read back, and an exit is answered exactly where the run that is read back is finished. -/
theorem fresh_engine_reads_back (h : Reachable registry w) (he : w.engine? slot = some e) :
    (∀ raw answer used m, e.runStep (w.context registry) raw w.store = ((answer, used), m) →
      Committed answer →
        used.run.record.id = e.run.record.id ∧ ∃ e', used.ReadsBack (w.context registry) m e' ∧
          (∀ result s, answer = .ok ⟨result, .step s⟩ → e'.stepEngine.current? = some s) ∧
          ((∃ result path, answer = .ok ⟨result, .exit path⟩) ↔ e'.run.state = .finished)) ∧
    ∀ used m, (e.prepare (w.context registry)).run w.store = (.ok used, m) → ¬ e.Stale w.store →
      used.run.record.id = e.run.record.id ∧
        ∃ e', used.ReadsBack (w.context registry) m e' := by
  constructor
  · intro raw answer used m hrun hcommitted
    exact h.sound.runStep_readsBack he hrun hcommitted
  · intro used m hrun hstale
    exact h.sound.prepare_readsBack he hrun hstale

/-- The first callback of a call: the engine enters the first step, greets the caller and comes
to the question, and both times a fresh engine holds the same. -/
theorem fresh_engine_reads_back_reception :
    (∃ used e', used.ReadsBack ((Reception.world 1).context .builtins) Reception.opened.store e' ∧
      Reception.opened.engine? 0 = some used) ∧
    ∃ used e' s, used.ReadsBack (Reception.opened.context .builtins) Reception.greeted.store e' ∧
      Reception.greeted.engine? 0 = some used ∧ e'.stepEngine.current? = some s ∧
      s.step.name = "account" := by
  constructor
  · let e := firstEngine Reception.flow Reception.desk
    obtain ⟨used, hrun, hused⟩ : ∃ used, (e.prepare ((Reception.world 1).context .builtins)).run
        (Reception.world 1).store = (.ok used, Reception.opened.store) ∧
          Reception.opened.engine? 0 = some used := ⟨_, rfl, rfl⟩
    have he : (Reception.world 1).engine? 0 = some e := rfl
    have hstale : ¬ e.Stale (Reception.world 1).store :=
      Engine.not_stale (Table.get?_insert_self _ _ _) rfl
    obtain ⟨-, e', hback⟩ :=
      (fresh_engine_reads_back (Reception.reachable_world 1) he).2 used _ hrun hstale
    exact ⟨used, e', hback, hused⟩
  · obtain ⟨e, result, s, used, he, hrun, hused, hname⟩ : ∃ e result s used,
        Reception.opened.engine? 0 = some e ∧
        e.runStep (Reception.opened.context .builtins) none Reception.opened.store =
          ((.ok ⟨result, .step s⟩, used), Reception.greeted.store) ∧
        Reception.greeted.engine? 0 = some used ∧ s.step.name = "account" :=
      ⟨_, _, _, _, rfl, rfl, rfl, rfl⟩
    obtain ⟨-, e', hback, hnext, -⟩ :=
      (fresh_engine_reads_back Reception.reachable_opened he).1 none _ used _ hrun trivial
    exact ⟨used, e', s, hback, hused, hnext result s rfl, hname⟩

end World
end CallFlow
