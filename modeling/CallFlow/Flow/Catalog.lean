import CallFlow.Flow.Validation

/-! # Published flows

A catalog only grows: a flow is published under its own tag once it is valid, and what is
published under a tag stays.
-/
namespace CallFlow

abbrev FlowSource := String → Except ConfigError FlowConfig

structure Catalog where
  flows : Table String FlowConfig

namespace Catalog

def empty : Catalog := ⟨.empty⟩

def publish (c : Catalog) (config : FlowConfig) (registry : Registry) :
    Except ConfigError (String × Catalog) := do
  config.tree.validate registry
  let tag := config.tag
  if c.flows.contains tag then return (tag, c)
  else return (tag, ⟨c.flows.insert tag config⟩)

def resolve (c : Catalog) : FlowSource := fun tag =>
  match c.flows.get? tag with
  | some config => .ok config
  | none => .error (.notFound tag)

end Catalog
end CallFlow
