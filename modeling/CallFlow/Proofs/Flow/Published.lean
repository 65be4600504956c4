import CallFlow.Flow.Catalog
import CallFlow.Proofs.Flow.Valid
import CallFlow.Proofs.Store.Tables

/-! # What a catalog holds

Publishing keeps every flow that was published before, and adds only well-formed ones.
-/
namespace CallFlow.Catalog
variable {c c' : Catalog} {config : FlowConfig} {registry : Registry} {tag : String}

theorem resolve_eq_ok_iff : c.resolve tag = .ok config ↔ c.flows.get? tag = some config := by
  unfold resolve
  cases c.flows.get? tag <;> simp

def Extends (c c' : Catalog) : Prop :=
  ∀ {tag config}, c.resolve tag = .ok config → c'.resolve tag = .ok config

def Valid (c : Catalog) (registry : Registry) : Prop :=
  ∀ {tag config}, c.resolve tag = .ok config → config.tree.WellFormed registry

theorem valid_empty (registry : Registry) : empty.Valid registry := by
  intro tag config h
  cases h

theorem publish_eq_ok (h : c.publish config registry = .ok (tag, c')) :
    config.tree.WellFormed registry ∧ tag = config.tag ∧
      c' = if c.flows.contains config.tag then c else ⟨c.flows.insert config.tag config⟩ := by
  obtain ⟨hvalid, h⟩ := check_eq_ok.mp h
  refine ⟨StepTree.validate_eq_ok_iff.mp hvalid, ?_⟩
  dsimp only at h
  split at h <;> cases h <;> simp [*]

theorem publish_extends (h : c.publish config registry = .ok (tag, c')) : c.Extends c' := by
  obtain ⟨-, -, rfl⟩ := publish_eq_ok h
  intro tag' config' hr
  split
  · exact hr
  · rename_i hfree
    rw [resolve_eq_ok_iff] at hr ⊢
    have hne : tag' ≠ config.tag := by
      rintro rfl
      exact hfree (Table.contains_of_get? hr)
    exact (c.flows.get?_insert_of_ne hne config).trans hr

theorem publish_valid (hc : c.Valid registry) (h : c.publish config registry = .ok (tag, c')) :
    c'.Valid registry := by
  obtain ⟨hw, -, rfl⟩ := publish_eq_ok h
  intro tag' config' hr
  split at hr
  · exact hc hr
  · rw [resolve_eq_ok_iff] at hr
    simp only [Table.get?_insert] at hr
    split at hr
    · cases hr
      exact hw
    · exact hc (resolve_eq_ok_iff.mpr hr)

end CallFlow.Catalog
