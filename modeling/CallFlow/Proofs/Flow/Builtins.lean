import CallFlow.Proofs.Flow.Valid
import CallFlow.Proofs.Store.Tables

/-! # The built-in kinds

Of the built-in kinds only messages ask for nothing, and a message says its text whatever it is
given. Questions and menus keep facts in the session but answer what they came to. There are three
built-in kinds of exit paths.
-/
namespace CallFlow

theorem MessageStep.execute_eq (m : MessageStep) (services : Services) (raw : Option String)
    (session : Session) : m.behavior.execute services raw session =
      ⟨none, .ok (.saying m.text),
        m.sessionKey.elim session fun key => session.insert key m.sessionValue⟩ := rfl

namespace StepBehavior
variable {b : StepBehavior}

inductive Builtin : StepBehavior → Prop
  | message (m : MessageStep) : Builtin m.behavior
  | question (q : Question) : Builtin q.behavior
  | menu (m : Menu) : Builtin m.behavior

/-- Whatever the step keeps of a result, it answers the result. -/
def KeepsResults (b : StepBehavior) : Prop :=
  ∀ ctx result session, (b.saveResult ctx result session).1 = result

theorem Builtin.keepsResults (h : b.Builtin) : b.KeepsResults := by
  intro ctx result session
  cases h with
  | message m => rfl
  | question q =>
    show (q.saveResult ctx result session).1 = result
    unfold Question.saveResult
    split <;> rfl
  | menu m =>
    show (m.saveResult ctx result session).1 = result
    unfold Menu.saveResult
    split <;> rfl

theorem perform_input (b : StepBehavior) (ctx : StepContext) (session : Session) :
    (b.perform ctx session).input = ctx.input := by
  unfold perform
  split <;> rfl

/-- A step that answers what it came to does not report a failure as a success. -/
theorem KeepsResults.perform_ok (h : b.KeepsResults) {ctx : StepContext} {session : Session}
    {result : StepResult} (hok : (b.perform ctx session).outcome = .ok result) :
    result.isError = false := by
  unfold perform at hok
  split at hok
  · cases hok
  · rename_i answered kept hnot hrun
    cases hok
    rw [h]
    cases answered with
    | error message retryable resetStep => exact (hnot _ _ _ rfl).elim
    | success | inputSuccess | replay | exitQueue => rfl
  · cases hok

theorem KeepsResults.execute_ok (h : b.KeepsResults) {services : Services} {raw : Option String}
    {session : Session} {result : StepResult}
    (hok : (b.execute services raw session).outcome = .ok result) : result.isError = false := by
  unfold execute at hok
  split at hok
  · exact h.perform_ok hok
  · split at hok
    · exact h.perform_ok hok
    · cases hok

end StepBehavior

namespace Registry

def KeepsBuiltin (r : Registry) (name : String) : Prop :=
  ∀ kind, r.steps.get? name = some kind → builtins.steps.get? name = some kind

theorem KeepsBuiltin.construct {r : Registry} {t : StepTemplate} (hr : r.KeepsBuiltin t.stepType)
    {branch : String} {behavior : StepBehavior} (h : r.Constructs t branch behavior) :
    behavior.Builtin := by
  obtain ⟨kind, hkind, hanswer⟩ := h
  have hkind := hr kind hkind
  simp only [builtins, withExit, withStep, Table.get?_insert] at hkind
  split at hkind
  · cases hkind
    obtain ⟨menu, -, rfl⟩ := map_eq_ok.mp hanswer
    exact .menu menu
  split at hkind
  · cases hkind
    obtain ⟨question, -, rfl⟩ := map_eq_ok.mp hanswer
    exact .question question
  split at hkind
  · cases hkind
    obtain ⟨m, -, rfl⟩ := map_eq_ok.mp hanswer
    exact .message m
  · cases hkind

theorem keepsBuiltin_builtins (name : String) : builtins.KeepsBuiltin name := fun _ => id

/-- What the built-in registry constructs asks for input or is a message. -/
theorem builtins_construct {t : StepTemplate} {branch : String} {behavior : StepBehavior}
    (h : builtins.Constructs t branch behavior) :
    behavior.inputType.isSome = true ∨ ∃ m : MessageStep, behavior = m.behavior := by
  cases (keepsBuiltin_builtins t.stepType).construct h with
  | message m => exact .inr ⟨m, rfl⟩
  | question | menu => exact .inl rfl

theorem builtins_exitPaths (name : String) : builtins.exitPaths.get? name =
    if name = "handoff" then some ExitPath.buildHandoff
    else if name = "transfer_to_queue" then some ExitPath.buildTransfer
    else if name = "hangup" then some ExitPath.buildHangup else none := by
  simp only [builtins, withExit, withStep, Table.get?_insert]
  rfl

end Registry

def FlowConfig.NamesBuiltins (config : FlowConfig) (registry : Registry) : Prop :=
  ∀ br ∈ config.tree.branches, ∀ t ∈ br.steps, registry.KeepsBuiltin t.stepType

theorem FlowConfig.namesBuiltins_builtins (config : FlowConfig) : config.NamesBuiltins .builtins :=
  fun _ _ t _ => Registry.keepsBuiltin_builtins t.stepType

end CallFlow
