import CallFlow.Except
import CallFlow.Flow.Validation
import CallFlow.Step.Instance

/-! # Well-formed flows

A flow passes validation exactly if it is well-formed. In a well-formed flow the names of
branches and steps are unique, so that every look-up by name finds the branch or step that was
meant, and every step can be built.
-/
namespace CallFlow

namespace Registry
variable {registry : Registry} {t : StepTemplate} {branch : String} {behavior : StepBehavior}
variable {exit : ExitTemplate} {path : ExitPath}

/-- The constructor that is registered for the kind of the template answers with the behaviour. -/
def Constructs (registry : Registry) (t : StepTemplate) (branch : String)
    (behavior : StepBehavior) : Prop :=
  ∃ kind, registry.steps.get? t.stepType = some kind ∧
    kind.construct ⟨t.name, branch, t.arguments, t.actions⟩ = .ok behavior

def BuildsExit (registry : Registry) (exit : ExitTemplate) (path : ExitPath) : Prop :=
  ∃ build, registry.exitPaths.get? exit.exitType = some build ∧ build exit.arguments = .ok path

theorem construct_eq_ok :
    registry.construct t branch = .ok behavior ↔ registry.Constructs t branch behavior := by
  unfold construct Constructs
  cases registry.steps.get? t.stepType <;> simp

theorem buildExitTemplate_eq_ok :
    registry.buildExitTemplate exit = .ok path ↔ registry.BuildsExit exit path := by
  unfold buildExitTemplate buildExit BuildsExit
  cases registry.exitPaths.get? exit.exitType <;> simp

end Registry

/-- The step is what the registry makes of the template on a branch. -/
structure Step.Built (registry : Registry) (t : StepTemplate) (on : String) (step : Step) :
    Prop where
  name : step.name = t.name
  branch : step.branch = on
  resetTarget : step.resetTarget = t.resetTarget
  switchTarget : step.switchTarget = t.switchTarget
  retryCount : step.retryCount = t.retryCount
  snapshot : step.snapshot = t.snapshot
  behavior : registry.Constructs t on step.behavior

namespace Step
variable {registry : Registry} {t : StepTemplate} {branch : String} {step other : Step}

theorem ofTemplate_eq_ok :
    Step.ofTemplate t branch registry = .ok step ↔ step.Built registry t branch := by
  constructor
  · intro h
    obtain ⟨behavior, hbehavior, h⟩ := bind_eq_ok.mp h
    cases h
    exact ⟨rfl, rfl, rfl, rfl, rfl, rfl, Registry.construct_eq_ok.mp hbehavior⟩
  · intro h
    refine bind_eq_ok.mpr ⟨step.behavior, Registry.construct_eq_ok.mpr h.behavior, ?_⟩
    obtain ⟨name, branch, resetTarget, switchTarget, retryCount, behavior, snapshot⟩ := step
    obtain ⟨rfl, rfl, rfl, rfl, rfl, rfl, -⟩ := h
    rfl

theorem Built.unique (h : step.Built registry t branch) (h' : other.Built registry t branch) :
    step = other :=
  Except.ok.inj ((ofTemplate_eq_ok.mpr h).symm.trans (ofTemplate_eq_ok.mpr h'))

end Step

/-! ## The checks -/

theorem checkBranches_eq_ok_iff {seen : List String} {bs : List Branch} :
    checkBranches seen bs = .ok () ↔
      (bs.map (·.name)).Nodup ∧ (∀ b ∈ bs, b.name ∉ seen) ∧ ∀ b ∈ bs, b.steps ≠ [] := by
  induction bs generalizing seen with
  | nil => simp [checkBranches]
  | cons b rest ih =>
    simp only [checkBranches, List.map_cons, List.nodup_cons, List.forall_mem_cons, List.mem_map,
      not_exists, not_and]
    by_cases hseen : b.name ∈ seen
    · simp [hseen]
    · by_cases hempty : b.steps = []
      · simp [hseen, hempty]
      · have hsteps : b.steps.isEmpty = false := by simpa using hempty
        simp only [hseen, hsteps, Bool.false_eq_true, if_false, ih, List.mem_cons, not_or]
        grind

theorem checkStepNames_eq_ok_iff {branch : String} {seen : List String} {ts : List StepTemplate} :
    checkStepNames branch seen ts = .ok () ↔
      (ts.map (·.name)).Nodup ∧ ∀ t ∈ ts, t.name ∉ seen := by
  induction ts generalizing seen with
  | nil => simp [checkStepNames]
  | cons t rest ih =>
    simp only [checkStepNames, List.map_cons, List.nodup_cons, List.forall_mem_cons, List.mem_map,
      not_exists, not_and]
    by_cases hseen : t.name ∈ seen
    · simp [hseen]
    · simp only [hseen, if_false, ih, List.mem_cons, not_or]
      grind

theorem danglingTarget?_eq_none_iff {target : Option String} {names : List String} :
    danglingTarget? target names = none ↔ ∀ name, target = some name → name ∈ names := by
  cases target <;> simp [danglingTarget?, Option.filter]

namespace StepTree

structure WellFormed (t : StepTree) (registry : Registry) : Prop where
  branches : t.branches ≠ []
  branchNames : (t.branches.map (·.name)).Nodup
  steps : ∀ b ∈ t.branches, b.steps ≠ []
  stepNames : ∀ b ∈ t.branches, (b.steps.map (·.name)).Nodup
  constructed : ∀ b ∈ t.branches, ∀ s ∈ b.steps,
    ∃ behavior, registry.Constructs s b.name behavior
  exits : ∀ b ∈ t.branches, ∀ s ∈ b.steps, ∀ exit, s.exitPath = some exit →
    ∃ path, registry.BuildsExit exit path
  switchTargets : ∀ b ∈ t.branches, ∀ s ∈ b.steps, ∀ name, s.switchTarget = some name →
    name ∈ t.branches.map (·.name)
  resetTargets : ∀ b ∈ t.branches, ∀ s ∈ b.steps, ∀ name, s.resetTarget = some name →
    name ∈ b.steps.map (·.name)

variable {t : StepTree} {registry : Registry}

theorem checkStep_eq_ok_iff {b : Branch} {s : StepTemplate} :
    t.checkStep registry b s = .ok () ↔
      (∃ behavior, registry.Constructs s b.name behavior) ∧
      (∀ exit, s.exitPath = some exit → ∃ path, registry.BuildsExit exit path) ∧
      (∀ name, s.switchTarget = some name → name ∈ t.branches.map (·.name)) ∧
      ∀ name, s.resetTarget = some name → name ∈ b.steps.map (·.name) := by
  simp only [← Registry.construct_eq_ok, ← Registry.buildExitTemplate_eq_ok]
  rw [← mapM_option_eq_ok, ← danglingTarget?_eq_none_iff, ← danglingTarget?_eq_none_iff]
  simp only [checkStep, bind_eq_ok, exists_and_right]
  refine and_congr_right fun _ => and_congr_right fun _ => ?_
  cases danglingTarget? s.switchTarget (t.branches.map (·.name)) with
  | some target => simp [throw, throwThe, MonadExceptOf.throw]
  | none =>
    cases danglingTarget? s.resetTarget (b.steps.map (·.name)) with
    | some target => simp [throw, throwThe, MonadExceptOf.throw]
    | none => simp [pure, Except.pure]

/-- Validation accepts exactly the well-formed flows. -/
theorem validate_eq_ok_iff : t.validate registry = .ok () ↔ t.WellFormed registry := by
  have hbranch : ∀ b, t.checkBranch registry b = .ok () ↔
      (b.steps.map (·.name)).Nodup ∧ ∀ s ∈ b.steps, t.checkStep registry b s = .ok () := by
    intro b
    simp [checkBranch, check_eq_ok, forM_eq_ok, checkStepNames_eq_ok_iff]
  unfold validate
  cases hnil : t.branches with
  | nil =>
    constructor
    · intro h
      cases h
    · exact fun h => absurd hnil h.branches
  | cons first rest =>
    rw [← hnil]
    have hne : t.branches ≠ [] := by simp [hnil]
    have hempty : t.branches.isEmpty = false := by simp [hnil]
    simp only [hempty, Bool.false_eq_true, if_false, check_eq_ok, List.forM_eq_forM, forM_eq_ok,
      hbranch, checkBranches_eq_ok_iff, checkStep_eq_ok_iff]
    constructor
    · rintro ⟨⟨hnames, -, hsteps⟩, h⟩
      exact ⟨hne, hnames, hsteps, fun b hb => (h b hb).1, fun b hb s hs => ((h b hb).2 s hs).1,
        fun b hb s hs => ((h b hb).2 s hs).2.1, fun b hb s hs => ((h b hb).2 s hs).2.2.1,
        fun b hb s hs => ((h b hb).2 s hs).2.2.2⟩
    · intro h
      refine ⟨⟨h.branchNames, by simp, h.steps⟩, fun b hb => ⟨h.stepNames b hb, ?_⟩⟩
      exact fun s hs => ⟨h.constructed b hb s hs, h.exits b hb s hs, h.switchTargets b hb s hs,
        h.resetTargets b hb s hs⟩

/-! ## Look-ups -/

section Names
variable {α : Type} {name : α → String} {xs : List α} {x : α}

theorem find?_name (hx : (xs.map name).Nodup) (h : x ∈ xs) :
    xs.find? (name · = name x) = some x := by
  induction xs with
  | nil => cases h
  | cons y rest ih =>
    obtain ⟨hy, hrest⟩ := List.nodup_cons.mp hx
    rcases List.mem_cons.mp h with rfl | h
    · simp
    · have hne : name y ≠ name x := by
        intro heq
        exact hy (heq ▸ List.mem_map_of_mem h)
      simpa [hne] using ih hrest h

theorem findIdx?_name {i : Nat} (hx : (xs.map name).Nodup) (h : xs[i]? = some x) :
    xs.findIdx? (name · = name x) = some i := by
  induction xs generalizing i with
  | nil => simp at h
  | cons y rest ih =>
    obtain ⟨hy, hrest⟩ := List.nodup_cons.mp hx
    cases i with
    | zero =>
      obtain rfl : y = x := by simpa using h
      simp [List.findIdx?_cons]
    | succ i =>
      have hrx : rest[i]? = some x := by simpa using h
      have hne : name y ≠ name x := by
        intro heq
        exact hy (heq ▸ List.mem_map_of_mem (List.mem_of_getElem? hrx))
      simp [List.findIdx?_cons, hne, ih hrest hrx]

end Names

theorem firstBranch_mem {b : Branch} (h : t.firstBranch = .ok b) : b ∈ t.branches := by
  unfold firstBranch at h
  split at h <;> cases h
  simp [*]

theorem branch_name {name : String} {b : Branch} (h : t.branch name = .ok b) : b.name = name := by
  unfold branch at h
  split at h <;> cases h
  rename_i hfound
  simpa using List.find?_some hfound

namespace WellFormed
variable (h : t.WellFormed registry)
include h

theorem branch_eq {b : Branch} (hb : b ∈ t.branches) : t.branch b.name = .ok b := by
  simp only [StepTree.branch, find?_name h.branchNames hb]

theorem step?_eq {b : Branch} (hb : b ∈ t.branches) {s : StepTemplate} (hs : s ∈ b.steps) :
    b.step? s.name = some s :=
  find?_name (h.stepNames b hb) hs

theorem position?_eq {b : Branch} (hb : b ∈ t.branches) {s : StepTemplate} {i : Nat}
    (hs : b.steps[i]? = some s) : b.position? s.name = some i :=
  findIdx?_name (h.stepNames b hb) hs

theorem step_eq {b : Branch} (hb : b ∈ t.branches) {s : StepTemplate} (hs : s ∈ b.steps) :
    t.step b.name s.name = .ok s := by
  simp [StepTree.step, h.branch_eq hb, h.step?_eq hb hs, bind, Except.bind, pure, Except.pure]

theorem exists_built {b : Branch} (hb : b ∈ t.branches) {s : StepTemplate}
    (hs : s ∈ b.steps) : ∃ step, Step.Built registry s b.name step := by
  obtain ⟨behavior, hconstructs⟩ := h.constructed b hb s hs
  exact ⟨⟨s.name, b.name, s.resetTarget, s.switchTarget, s.retryCount, behavior, s.snapshot⟩,
    rfl, rfl, rfl, rfl, rfl, rfl, hconstructs⟩

end WellFormed
end StepTree

/-! ## Steps of a flow -/

namespace FlowConfig

def HasStep (config : FlowConfig) (registry : Registry) (step : Step) : Prop :=
  ∃ b ∈ config.tree.branches, ∃ s ∈ b.steps, step.Built registry s b.name

variable {config : FlowConfig} {registry : Registry} {step : Step}

/-- The branch and the template of the flow that a step is built from. -/
structure BuiltFrom (config : FlowConfig) (registry : Registry) (step : Step) (br : Branch)
    (t : StepTemplate) : Prop where
  branch : br ∈ config.tree.branches
  template : t ∈ br.steps
  built : step.Built registry t br.name

namespace BuiltFrom
variable {br : Branch} {t : StepTemplate} (h : config.BuiltFrom registry step br t)
include h

theorem on : br.name = step.branch := h.built.branch.symm

theorem name : t.name = step.name := h.built.name.symm

variable (hw : config.tree.WellFormed registry)
include hw

theorem foundBranch : config.tree.branch step.branch = .ok br := by
  rw [← h.on]
  exact hw.branch_eq h.branch

theorem found : config.tree.step step.branch step.name = .ok t := by
  rw [← h.on, ← h.name]
  exact hw.step_eq h.branch h.template

theorem step?_eq : br.step? step.name = some t := by
  rw [← h.name]
  exact hw.step?_eq h.branch h.template

end BuiltFrom

namespace HasStep
variable (h : config.HasStep registry step)
include h

theorem builtFrom : ∃ br t, config.BuiltFrom registry step br t := by
  obtain ⟨br, hbr, t, ht, hbuilt⟩ := h
  exact ⟨br, t, hbr, ht, hbuilt⟩

variable (hw : config.tree.WellFormed registry)
include hw

/-- A step of the flow is built from a template of the branch that is found by its name. -/
theorem builtFrom_branch {br : Branch} (hbr : config.tree.branch step.branch = .ok br) :
    ∃ t, config.BuiltFrom registry step br t := by
  obtain ⟨br', t, hfrom⟩ := h.builtFrom
  obtain rfl : br' = br := Except.ok.inj ((hfrom.foundBranch hw).symm.trans hbr)
  exact ⟨t, hfrom⟩

theorem built {t : StepTemplate} (ht : config.tree.step step.branch step.name = .ok t) :
    step.Built registry t step.branch := by
  obtain ⟨br, t', hfrom⟩ := h.builtFrom
  obtain rfl : t' = t := Except.ok.inj ((hfrom.found hw).symm.trans ht)
  exact hfrom.on ▸ hfrom.built

/-- A step of the flow is known by its branch and its name. -/
theorem unique {other : Step} (h' : config.HasStep registry other)
    (hbranch : step.branch = other.branch) (hname : step.name = other.name) : step = other := by
  obtain ⟨br, t, hfrom⟩ := h'.builtFrom
  have hother := hfrom.on ▸ hfrom.built
  have ht := hfrom.found hw
  rw [← hbranch] at hother ht
  rw [← hname] at ht
  exact (h.built hw ht).unique hother

end HasStep

end FlowConfig
end CallFlow
