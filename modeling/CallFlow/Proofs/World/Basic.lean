import CallFlow.Engine.Call
import CallFlow.Proofs.Engine.Staging

/-! # Worlds

A world is a catalog of published flows, a store, what the host provides, and all the engines
that adapters hold. Adapters act in any order; an engine is given up after a failure that is
not unrecoverable. What can come about in this way is reachable.
-/
namespace CallFlow

structure World where
  catalog : Catalog
  services : Services
  settings : Settings
  store : Memory
  /-- One for each engine that was created, while it is in use. -/
  engines : List (Option Engine)

namespace World

inductive Call
  | prepare
  | run (raw : Option String)

inductive Action
  | publish (config : FlowConfig)
  | provide (services : Services) (settings : Settings)
  | tick (clock : String)
  | createRun (tag : String)
  | createEngine (run : Int)
  | call (slot : Nat) (c : Call)

end World

namespace Engine

/-- The engine as it is kept after a call that had this answer. -/
def kept {α : Type} (e : Engine) : Except EngineError α → Option Engine
  | .ok _ | .error (.unrecoverable ..) => some e
  | .error _ => none

theorem kept_of_committed {α : Type} {e : Engine} {answer : Except EngineError α}
    (h : Committed answer) : e.kept answer = some e := by
  match answer, h with
  | .ok _, _ => rfl
  | .error (.unrecoverable ..), _ => rfl

theorem kept_of_not_committed {α : Type} {e : Engine} {answer : Except EngineError α}
    (h : ¬ Committed answer) : e.kept answer = none := by
  unfold kept
  split
  · exact absurd trivial h
  · exact absurd trivial h
  · rfl

def call (ctx : Context) (e : Engine) (m : Memory) : World.Call → Option Engine × Memory
  | .prepare =>
    match (e.prepare ctx).run m with
    | (.ok e', m') => (some e', m')
    | (.error _, m') => (none, m')
  | .run raw =>
    let ran := e.runStep ctx raw m
    (ran.1.2.kept ran.1.1, ran.2)

theorem call_store (ctx : Context) (e : Engine) (m : Memory) :
    (e.call ctx m .prepare).2 = ((e.prepare ctx).run m).2 := by
  unfold call
  rcases (e.prepare ctx).run m with ⟨_ | _, _⟩ <;> rfl

end Engine

namespace World

def empty : World := ⟨.empty, .empty, .standard, .empty, []⟩

def context (registry : Registry) (w : World) : Context :=
  ⟨w.catalog.resolve, registry, w.services, w.settings⟩

def engine? (w : World) (slot : Nat) : Option Engine := w.engines[slot]?.join

def step (registry : Registry) (w : World) : Action → World
  | .publish config =>
    match w.catalog.publish config registry with
    | .ok (_, catalog) => { w with catalog }
    | .error _ => w
  | .provide services settings => { w with services, settings }
  | .tick clock => { w with store := { w.store with clock } }
  | .createRun tag => { w with store := ((createRun (w.context registry) tag).run w.store).2 }
  | .createEngine run =>
    match (Engine.create (w.context registry) run).run w.store with
    | (.ok e, store) => { w with store, engines := w.engines ++ [some e] }
    | (.error _, store) => { w with store }
  | .call slot c =>
    match w.engine? slot with
    | none => w
    | some e =>
      let (engine, store) := e.call (w.context registry) w.store c
      { w with store, engines := w.engines.set slot engine }

def after (registry : Registry) (w : World) (actions : List Action) : World :=
  actions.foldl (step registry) w

theorem after_concat (registry : Registry) (w : World) (actions : List Action) (a : Action) :
    w.after registry (actions ++ [a]) = (w.after registry actions).step registry a := by
  simp only [after, List.foldl_append, List.foldl_cons, List.foldl_nil]

inductive Reaches (registry : Registry) (w : World) : World → Prop
  | refl : Reaches registry w w
  | step {w'} (a : Action) (h : Reaches registry w w') : Reaches registry w (w'.step registry a)

def Reachable (registry : Registry) (w : World) : Prop := Reaches registry empty w

theorem Reaches.trans {registry : Registry} {w₁ w₂ w₃ : World} (h : Reaches registry w₁ w₂)
    (h' : Reaches registry w₂ w₃) : Reaches registry w₁ w₃ := by
  induction h' with
  | refl => exact h
  | step a _ ih => exact ih.step a

/-- What can come about is what comes about by some actions. -/
theorem reaches_iff {registry : Registry} {w w' : World} :
    Reaches registry w w' ↔ ∃ actions, w' = w.after registry actions := by
  constructor
  · intro h
    induction h with
    | refl => exact ⟨[], rfl⟩
    | step a _ ih =>
      obtain ⟨actions, rfl⟩ := ih
      exact ⟨actions ++ [a], (after_concat registry w actions a).symm⟩
  · rintro ⟨actions, rfl⟩
    induction actions generalizing w with
    | nil => exact .refl
    | cons a rest ih => exact Reaches.trans (.step a .refl) ih

theorem mem_engines_set {engines : List (Option Engine)} {slot other : Nat}
    {engine : Option Engine} {e : Engine}
    (h : (engines.set slot engine)[other]?.join = some e) :
    slot = other ∧ engine = some e ∨ engines[other]?.join = some e := by
  rw [List.getElem?_set] at h
  split at h
  · split at h
    · exact .inl ⟨‹_›, by simpa using h⟩
    · simp at h
  · exact .inr h

theorem engine_set {w : World} {slot : Nat} {e : Engine} (h : w.engine? slot = some e)
    (e' : Engine) : (w.engines.set slot (some e'))[slot]?.join = some e' := by
  have hslot : slot < w.engines.length := by
    apply Nat.lt_of_not_le
    intro hge
    unfold engine? at h
    rw [List.getElem?_eq_none hge] at h
    cases h
  rw [List.getElem?_set_self hslot]
  rfl

theorem mem_engines_append {engines : List (Option Engine)} {slot : Nat} {e e' : Engine}
    (h : (engines ++ [some e'])[slot]?.join = some e) :
    e' = e ∨ engines[slot]?.join = some e := by
  rw [List.getElem?_append] at h
  split at h
  · exact .inr h
  · left
    cases hs : slot - engines.length with
    | zero => simpa [hs] using h
    | succ => simp [hs] at h

end World
end CallFlow
