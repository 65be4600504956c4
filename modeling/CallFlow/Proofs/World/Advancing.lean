import CallFlow.Proofs.World.CurrentStep

/-! # On to the next step

A step that completes lets the caller go, if its template has an exit path, or is followed by the
step right after it on its branch. Where the run goes on is read off its history; whatever is in
there, this comes to the index of the step and one.
-/
namespace CallFlow
open Memory Work

structure FlowConfig.Places (config : FlowConfig) (step : Step) (br : Branch) (i : Nat)
    (t : StepTemplate) : Prop where
  branch : config.tree.branch step.branch = .ok br
  index : br.steps[i]? = some t
  name : t.name = step.name

namespace FlowConfig
variable {config : FlowConfig} {registry : Registry} {step : Step} {br : Branch} {i : Nat}
variable {t : StepTemplate}

theorem HasStep.places (hw : config.tree.WellFormed registry) (h : config.HasStep registry step) :
    ∃ br i t, config.Places step br i t := by
  obtain ⟨br, t, hfrom⟩ := h.builtFrom
  obtain ⟨i, hi⟩ := List.getElem?_of_mem hfrom.template
  exact ⟨br, i, t, hfrom.foundBranch hw, hi, hfrom.name⟩

namespace Places
variable (hw : config.tree.WellFormed registry) (hstep : config.HasStep registry step)
variable (h : config.Places step br i t)
include hw hstep h

theorem template : config.tree.step step.branch step.name = .ok t := by
  obtain ⟨_, hfrom⟩ := hstep.builtFrom_branch hw h.branch
  rw [← h.name, ← hfrom.on]
  exact hw.step_eq hfrom.branch (List.mem_of_getElem? h.index)

/-- What follows the step on its branch stands at the next index. -/
theorem indexAfter_eq : indexAfter br (some step.name) = .ok (i + 1) := by
  obtain ⟨_, hfrom⟩ := hstep.builtFrom_branch hw h.branch
  simp only [indexAfter, ← h.name, hw.position?_eq hfrom.branch h.index]

end Places
end FlowConfig

namespace Engine
variable {ctx : Context} {m : Memory} {e : Engine} {p : PositionRecord} {b : BoundStep}

/-- Whenever the current step completes, the caller is let go by the exit path of its template. A
template without one leads to the step at the next index of the branch, and the run is given up
where there is none. -/
def GoesOnAfterSuccess (ctx : Context) (m : Memory) (e : Engine) : Prop :=
  ∀ raw x result p b, e.position = some p → e.stepEngine.current? = some b →
    e.execution? ctx raw = some x → x.outcome = .ok result → result.Completes →
    (∃ br i t, e.config.Places b.step br i t) ∧
    ∀ br i t, e.config.Places b.step br i t → ∃ r a e' m',
      m.runs.get? e.run.record.id = some r ∧ a.stepRun = p.stepRun ∧
      match t.exitPath, br.steps[i + 1]? with
      | some exit, _ => ∃ path, ctx.registry.BuildsExit exit path ∧
          e.runStep ctx raw m = ((.ok ⟨result, .exit path⟩, e'), m') ∧
          m.Closes r a x.session .finished m'
      | none, some t' => ∃ b' p', b'.step.Built ctx.registry t' br.name ∧
          e.runStep ctx raw m = ((.ok ⟨result, .step b'⟩, e'), m') ∧
          Arrives ctx.registry m r a x.session .stepInProgress none true e' m' b' p'
      | none, none =>
          e.runStep ctx raw m =
            ((.error (.unrecoverable b.step.branch b.step.name .branchExhausted), e'), m') ∧
          m.Closes r a x.session .error m'

theorem Seated.goesOnAfterSuccess (hm : m.Sound) (hw : e.config.tree.WellFormed ctx.registry)
    (h : e.Seated ctx.registry m p b) : e.GoesOnAfterSuccess ctx m := by
  intro raw x result p' b' hp hb hx hout hcompletes
  obtain rfl : p' = p := Option.some.inj (hp.symm.trans h.position)
  obtain rfl : b' = b := Option.some.inj (hb.symm.trans h.holds.current)
  refine ⟨h.step.places hw, fun br i t hplaces => ?_⟩
  have htemplate := hplaces.template hw h.step
  obtain ⟨r, w, answer, hwent⟩ := h.went hm hw hx
    (by rw [hout]; exact not_impossible_of_completes hcompletes)
  obtain ⟨-, hat, -⟩ := h.current_run hm
  refine ⟨r, b'.newAttempt raw x m.nextId m.clock, (e.runStep ctx raw m).1.2,
    (e.runStep ctx raw m).2, hwent.stored, hat.symm, ?_⟩
  have hran := hwent.answered
  cases hwent.goes with
  | replay outcome | queue outcome =>
    cases outcome.symm.trans hout
    exact hcompletes.elim
  | exit outcome _ template leaves built =>
    cases outcome.symm.trans hout
    cases template.symm.trans htemplate
    rw [leaves]
    exact ⟨_, built, hran, hwent.closes hm h rfl⟩
  | next outcome _ template remains branch follows known same =>
    -- what follows the last visit to the branch is what stands at the next index
    cases outcome.symm.trans hout
    cases template.symm.trans htemplate
    cases branch.symm.trans hplaces.branch
    obtain ⟨j, t', hj, ht', hbuilt⟩ := Branch.index_of_following follows
    obtain rfl : i + 1 = j := Except.ok.inj ((hplaces.indexAfter_eq hw h.step).symm.trans hj)
    rw [remains, ht']
    exact ⟨_, _, hbuilt, hran, hwent.arrives hm h rfl⟩
  | last outcome _ template remains branch follows =>
    cases outcome.symm.trans hout
    cases template.symm.trans htemplate
    cases branch.symm.trans hplaces.branch
    obtain ⟨j, hj, hnone⟩ := Branch.index_of_exhausted follows
    obtain rfl : i + 1 = j := Except.ok.inj ((hplaces.indexAfter_eq hw h.step).symm.trans hj)
    rw [remains, hnone]
    exact ⟨hran, hwent.closes hm h rfl⟩
  | retry outcome | reset outcome | first outcome | switch outcome | stop outcome
  | deadEnd outcome => cases outcome.symm.trans hout

end Engine

namespace World
variable {registry : Registry} {w : World}

/-- Wherever the run has been before, a step that completes is followed by the one right after it on
its branch. With an exit path it ends the run, and at the end of the branch the run is given up. -/
theorem success_leads_to_successor {id : Int} {r : RunRecord} (h : Reachable registry w)
    (hr : w.store.runs.get? id = some r) :
    w.AtCurrentStep registry id r fun e m => e.GoesOnAfterSuccess (w.context registry) m :=
  h.atCurrentStep hr fun hm hw hseated => hseated.goesOnAfterSuccess hm hw

/-- After the greeting comes the account. -/
theorem success_leads_to_successor_reception : ∃ e r a e' m' b' p',
    Reception.opened.engine? 0 = some e ∧
    b'.step.Built .builtins Reception.account "desk" ∧
    e.runStep (Reception.opened.context .builtins) none Reception.opened.store =
      ((.ok ⟨.success (some "Welcome."), .step b'⟩, e'), m') ∧
    Engine.Arrives .builtins Reception.opened.store r a .empty .stepInProgress none true e' m' b'
      p' := by
  obtain ⟨e, p, b, x, he, hid, hv, hp, hb, hconfig, hname, hbranch, hx, hout, hsession⟩ :
      ∃ e p b x, Reception.opened.engine? 0 = some e ∧ e.run.record.id = 1 ∧
      (Reception.opened.store.runs.get? 1).map (·.version) = some e.run.record.version ∧
      e.position = some p ∧ e.stepEngine.current? = some b ∧
      e.config = Reception.flow ∧ b.step.name = "greeting" ∧ b.step.branch = "desk" ∧
      e.execution? (Reception.opened.context .builtins) none = some x ∧
      x.outcome = .ok (.success (some "Welcome.")) ∧ x.session = .empty :=
    ⟨_, _, _, _, rfl, rfl, rfl, rfl, rfl, rfl, rfl, rfl, rfl, rfl, rfl⟩
  obtain ⟨r, hr, hready⟩ := exists_ready he hid hp hv
  obtain ⟨-, -, hgoes⟩ :=
    (success_leads_to_successor Reception.reachable_opened hr).ready 0 e hready
  have hplaces : e.config.Places b.step Reception.desk 0 Reception.greeting := by
    refine ⟨?_, rfl, hname.symm⟩
    rw [hconfig, hbranch]
    rfl
  obtain ⟨-, hnext⟩ := hgoes none x _ p b hp hb hx hout trivial
  obtain ⟨r, a, e', m', -, -, b', p', hstep, hrun, harrives⟩ := hnext _ _ _ hplaces
  exact ⟨e, r, a, e', m', b', p', he, hstep, hrun, hsession ▸ harrives⟩

end World
end CallFlow
