import CallFlow.Proofs.Flow.Valid

/-! # What a refusal names

Validation stops at the first defect and names it: whatever error it answers with, the flow has
the defect that the error stands for. The constructors of a registry are free in what they answer,
so that their errors stand for no more than the refusal itself.
-/
namespace CallFlow

theorem danglingTarget?_eq_some_iff {target : Option String} {names : List String}
    {name : String} : danglingTarget? target names = some name ↔
      target = some name ∧ name ∉ names := by
  cases target <;> grind [danglingTarget?, Option.filter]

namespace StepTree

/-- The flow has the defect that the error stands for. -/
inductive Defect (t : StepTree) (registry : Registry) : ConfigError → Prop
  | noBranches (none : t.branches = []) : Defect t registry .noBranches
  /-- Of two branches with one name, the later one is named. -/
  | duplicateBranch {b c : Branch} (both : [b, c].Sublist t.branches) (name : b.name = c.name) :
      Defect t registry (.duplicateBranch c.name)
  | emptyBranch {b : Branch} (branch : b ∈ t.branches) (empty : b.steps = []) :
      Defect t registry (.emptyBranch b.name)
  | duplicateStep {b : Branch} {s u : StepTemplate} (branch : b ∈ t.branches)
      (both : [s, u].Sublist b.steps) (name : s.name = u.name) :
      Defect t registry (.duplicateStep b.name u.name)
  | unknownStepType {b : Branch} {s : StepTemplate} (branch : b ∈ t.branches) (step : s ∈ b.steps)
      (unknown : registry.steps.get? s.stepType = none) :
      Defect t registry (.unknownStepType b.name s.name s.stepType)
  /-- The kind of the step is known, and its constructor answers with the error. -/
  | refusedStep {b : Branch} {s : StepTemplate} {kind : StepKind} {e : ConfigError}
      (branch : b ∈ t.branches) (step : s ∈ b.steps)
      (known : registry.steps.get? s.stepType = some kind)
      (refused : kind.construct ⟨s.name, b.name, s.arguments, s.actions⟩ = .error e) :
      Defect t registry e
  | unknownExitPathType {b : Branch} {s : StepTemplate} {x : ExitTemplate}
      (branch : b ∈ t.branches) (step : s ∈ b.steps) (exit : s.exitPath = some x)
      (unknown : registry.exitPaths.get? x.exitType = none) :
      Defect t registry (.unknownExitPathType x.exitType)
  | refusedExit {b : Branch} {s : StepTemplate} {x : ExitTemplate} {build : ExitKind}
      {e : ConfigError} (branch : b ∈ t.branches) (step : s ∈ b.steps)
      (exit : s.exitPath = some x) (known : registry.exitPaths.get? x.exitType = some build)
      (refused : build x.arguments = .error e) : Defect t registry e
  | unknownSwitchBranch {b : Branch} {s : StepTemplate} {name : String} (branch : b ∈ t.branches)
      (step : s ∈ b.steps) (target : s.switchTarget = some name)
      (unknown : name ∉ t.branches.map (·.name)) :
      Defect t registry (.unknownSwitchBranch b.name s.name name)
  | unknownResetStep {b : Branch} {s : StepTemplate} {name : String} (branch : b ∈ t.branches)
      (step : s ∈ b.steps) (target : s.resetTarget = some name)
      (unknown : name ∉ b.steps.map (·.name)) :
      Defect t registry (.unknownResetStep b.name s.name name)

variable {t : StepTree} {registry : Registry} {e : ConfigError}

/-! ## The checks -/

/-- The names seen are those of items that came before. -/
def Seen {α : Type} (name : α → String) (seen : List String) (before : List α) : Prop :=
  ∀ n ∈ seen, ∃ x ∈ before, name x = n

namespace Seen
variable {α : Type} {name : α → String} {seen : List String} {before : List α} {x : α}

theorem nil (name : α → String) : Seen name [] [] := by
  intro n hn
  cases hn

theorem cons (h : Seen name seen before) (x : α) : Seen name (name x :: seen) (before ++ [x]) := by
  intro n hn
  rcases List.mem_cons.mp hn with rfl | hn
  · exact ⟨x, by simp, rfl⟩
  · obtain ⟨y, hy, hname⟩ := h n hn
    exact ⟨y, by simp [hy], hname⟩

theorem twice (h : Seen name seen before) (hx : name x ∈ seen) (rest : List α) :
    ∃ y, [y, x].Sublist (before ++ x :: rest) ∧ name y = name x := by
  obtain ⟨y, hy, hname⟩ := h _ hx
  have hboth : ([y] ++ [x]).Sublist (before ++ x :: rest) :=
    (List.singleton_sublist.mpr hy).append (List.singleton_sublist.mpr List.mem_cons_self)
  exact ⟨y, hboth, hname⟩

end Seen

theorem checkBranches_eq_error {seen : List String} {before bs : List Branch}
    (hseen : Seen Branch.name seen before) (h : checkBranches seen bs = .error e) :
    (∃ b ∈ bs, b.steps = [] ∧ e = .emptyBranch b.name) ∨
      ∃ b c, [b, c].Sublist (before ++ bs) ∧ b.name = c.name ∧ e = .duplicateBranch c.name := by
  induction bs generalizing seen before with
  | nil => cases h
  | cons c rest ih =>
    unfold checkBranches at h
    split at h
    · rename_i hdup
      obtain ⟨b, hboth, hname⟩ := hseen.twice hdup rest
      exact .inr ⟨b, c, hboth, hname, (Except.error.inj h).symm⟩
    · split at h
      · rename_i hempty
        exact .inl ⟨c, List.mem_cons_self, List.isEmpty_iff.mp hempty, (Except.error.inj h).symm⟩
      · rcases ih (hseen.cons c) h with ⟨b, hb, hempty, he⟩ | ⟨b, d, hboth, hname, he⟩
        · exact .inl ⟨b, List.mem_cons_of_mem c hb, hempty, he⟩
        · exact .inr ⟨b, d, by simpa using hboth, hname, he⟩

theorem checkStepNames_eq_error {branch : String} {seen : List String}
    {before ts : List StepTemplate} (hseen : Seen StepTemplate.name seen before)
    (h : checkStepNames branch seen ts = .error e) :
    ∃ s u, [s, u].Sublist (before ++ ts) ∧ s.name = u.name ∧ e = .duplicateStep branch u.name := by
  induction ts generalizing seen before with
  | nil => cases h
  | cons u rest ih =>
    unfold checkStepNames at h
    split at h
    · rename_i hdup
      obtain ⟨s, hboth, hname⟩ := hseen.twice hdup rest
      exact ⟨s, u, hboth, hname, (Except.error.inj h).symm⟩
    · obtain ⟨s, v, hboth, hname, he⟩ := ih (hseen.cons u) h
      exact ⟨s, v, by simpa using hboth, hname, he⟩

theorem Defect.of_construct {b : Branch} {s : StepTemplate} (hb : b ∈ t.branches)
    (hs : s ∈ b.steps) (h : registry.construct s b.name = .error e) : t.Defect registry e := by
  unfold Registry.construct at h
  split at h
  · rename_i hkind
    obtain rfl := Except.error.inj h
    exact .unknownStepType hb hs hkind
  · rename_i hkind
    exact .refusedStep hb hs hkind h

theorem Defect.of_exit {b : Branch} {s : StepTemplate} {x : ExitTemplate} (hb : b ∈ t.branches)
    (hs : s ∈ b.steps) (hx : s.exitPath = some x) (h : registry.buildExitTemplate x = .error e) :
    t.Defect registry e := by
  unfold Registry.buildExitTemplate Registry.buildExit at h
  split at h
  · rename_i hkind
    obtain rfl := Except.error.inj h
    exact .unknownExitPathType hb hs hx hkind
  · rename_i hkind
    exact .refusedExit hb hs hx hkind h

theorem Defect.of_checkStep {b : Branch} {s : StepTemplate} (hb : b ∈ t.branches)
    (hs : s ∈ b.steps) (h : t.checkStep registry b s = .error e) : t.Defect registry e := by
  rcases bind_eq_error.mp h with hconstruct | ⟨-, -, h⟩
  · exact .of_construct hb hs hconstruct
  rcases bind_eq_error.mp h with hexit | ⟨-, -, h⟩
  · obtain ⟨x, hx, hrefused⟩ := mapM_option_eq_error.mp hexit
    exact .of_exit hb hs hx hrefused
  · split at h
    · rename_i hswitch
      obtain ⟨htarget, hunknown⟩ := danglingTarget?_eq_some_iff.mp hswitch
      obtain rfl := Except.error.inj h
      exact .unknownSwitchBranch hb hs htarget hunknown
    · split at h
      · rename_i hreset
        obtain ⟨htarget, hunknown⟩ := danglingTarget?_eq_some_iff.mp hreset
        obtain rfl := Except.error.inj h
        exact .unknownResetStep hb hs htarget hunknown
      · cases h

theorem Defect.of_checkBranch {b : Branch} (hb : b ∈ t.branches)
    (h : t.checkBranch registry b = .error e) : t.Defect registry e := by
  rcases bind_eq_error.mp h with hnames | ⟨-, -, h⟩
  · obtain ⟨s, u, hboth, hname, rfl⟩ :=
      checkStepNames_eq_error (.nil _) hnames
    exact .duplicateStep hb hboth hname
  · obtain ⟨s, hs, hstep⟩ := exists_of_forM_eq_error h
    exact .of_checkStep hb hs hstep

/-- Every error of validation names a defect of the flow. -/
theorem Defect.of_validate (h : t.validate registry = .error e) : t.Defect registry e := by
  unfold validate at h
  split at h
  · rename_i hnone
    obtain rfl := Except.error.inj h
    exact .noBranches (List.isEmpty_iff.mp hnone)
  · rcases bind_eq_error.mp h with hbranches | ⟨-, -, h⟩
    · rcases checkBranches_eq_error (.nil _) hbranches with
        ⟨b, hb, hempty, rfl⟩ | ⟨b, c, hboth, hname, rfl⟩
      · exact .emptyBranch hb hempty
      · exact .duplicateBranch hboth hname
    · obtain ⟨b, hb, hbranch⟩ := exists_of_forM_eq_error h
      exact .of_checkBranch hb hbranch

/-- A flow with a defect is not well-formed. -/
theorem Defect.not_wellFormed (h : t.Defect registry e) : ¬ t.WellFormed registry := by
  intro hw
  have distinct {α : Type} {name : α → String} {x y : α} {xs : List α}
      (hnames : (xs.map name).Nodup) (hboth : [x, y].Sublist xs) : name x ≠ name y := by
    have := (hboth.map name).nodup hnames
    simpa using this
  cases h with
  | noBranches hnone => exact hw.branches hnone
  | duplicateBranch hboth hname => exact distinct hw.branchNames hboth hname
  | emptyBranch hb hempty => exact hw.steps _ hb hempty
  | duplicateStep hb hboth hname => exact distinct (hw.stepNames _ hb) hboth hname
  | unknownStepType hb hs hunknown =>
    obtain ⟨behavior, kind, hkind, -⟩ := hw.constructed _ hb _ hs
    cases hunknown.symm.trans hkind
  | refusedStep hb hs hknown hrefused =>
    obtain ⟨behavior, kind, hkind, hanswer⟩ := hw.constructed _ hb _ hs
    cases hknown.symm.trans hkind
    cases hrefused.symm.trans hanswer
  | unknownExitPathType hb hs hx hunknown =>
    obtain ⟨path, build, hbuild, -⟩ := hw.exits _ hb _ hs _ hx
    cases hunknown.symm.trans hbuild
  | refusedExit hb hs hx hknown hrefused =>
    obtain ⟨path, build, hbuild, hanswer⟩ := hw.exits _ hb _ hs _ hx
    cases hknown.symm.trans hbuild
    cases hrefused.symm.trans hanswer
  | unknownSwitchBranch hb hs htarget hunknown =>
    exact hunknown (hw.switchTargets _ hb _ hs _ htarget)
  | unknownResetStep hb hs htarget hunknown =>
    exact hunknown (hw.resetTargets _ hb _ hs _ htarget)

/-- Validation accepts exactly the well-formed flows, names a defect of every other flow, and in
an accepted flow every look-up finds what was meant. -/
theorem validation_tells (t : StepTree) (registry : Registry) :
    (t.validate registry = .ok () ↔ t.WellFormed registry) ∧
    (∀ e, t.validate registry = .error e → t.Defect registry e) ∧
    (t.validate registry = .ok () → ∀ b ∈ t.branches, t.branch b.name = .ok b ∧
      ∀ i s, b.steps[i]? = some s →
        t.step b.name s.name = .ok s ∧ b.position? s.name = some i) := by
  refine ⟨validate_eq_ok_iff, fun e => .of_validate, fun hok b hb => ?_⟩
  have hw := validate_eq_ok_iff.mp hok
  exact ⟨hw.branch_eq hb, fun i s hs =>
    ⟨hw.step_eq hb (List.mem_of_getElem? hs), hw.position?_eq hb hs⟩⟩

/-- A branch without steps is told by its name. -/
theorem validation_tells_empty :
    StepTree.validate ⟨[⟨"desk", [], true⟩]⟩ .builtins = .error (.emptyBranch "desk") ∧
      StepTree.Defect ⟨[⟨"desk", [], true⟩]⟩ .builtins (.emptyBranch "desk") :=
  ⟨rfl, (validation_tells _ _).2.1 _ rfl⟩

end StepTree
end CallFlow
