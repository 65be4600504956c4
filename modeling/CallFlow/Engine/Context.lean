import CallFlow.Engine.Settings
import CallFlow.Flow.Catalog
import CallFlow.Step.Instance

/-! # What all engines of a deployment share

The flows, the registry, the services and the settings; the store is the state that the
engines work on.
-/
namespace CallFlow

structure Context where
  flows : FlowSource
  registry : Registry
  services : Services
  settings : Settings

namespace Context

/-- Refuses a registry whose services are not all there, and settings whose exit path for
queues is not registered. -/
def create (flows : FlowSource) (registry : Registry) (services : Services)
    (settings : Settings) : Except ConfigError Context := do
  registry.checkServices services
  if registry.exitPaths.contains settings.exitQueuePath then
    return ⟨flows, registry, services, settings⟩
  else throw (.unknownExitPathType settings.exitQueuePath)

def budget (ctx : Context) (step : Step) : Nat :=
  (step.retryCount.getD ctx.settings.defaultRetryCount).toNat

end Context
end CallFlow
