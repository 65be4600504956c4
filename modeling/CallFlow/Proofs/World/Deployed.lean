import CallFlow.Proofs.World.Invariant

/-! # A first run

In an empty world a valid flow can be published, a run of it created, and any number of engines
created on that run. Two small flows are deployed in this way.
-/
namespace CallFlow

theorem Catalog.publish_empty {config : FlowConfig} {registry : Registry}
    (h : config.tree.validate registry = .ok ()) :
    empty.publish config registry = .ok (config.tag, ⟨Table.empty.insert config.tag config⟩) := by
  unfold publish
  rw [h]
  rfl

namespace World
variable {registry : Registry} {config : FlowConfig} {b : Branch}

def firstEngine (config : FlowConfig) (b : Branch) : Engine :=
  ⟨config, ⟨b.newRun config.tag .empty, .uninitialized⟩, .idle, none⟩

/-- One published flow, one run in its first branch, and some engines on that run. -/
def deployed (config : FlowConfig) (b : Branch) (engines : Nat) : World where
  catalog := ⟨Table.empty.insert config.tag config⟩
  services := .empty
  settings := .standard
  store := Memory.empty.created (b.newRun config.tag .empty)
  engines := List.replicate engines (some (firstEngine config b))

theorem step_createRun {w : World} {tag : String} {id : Int} {m : Memory}
    (h : (createRun (w.context registry) tag).run w.store = (.ok id, m)) :
    w.step registry (.createRun tag) = { w with store := m } := by
  simp only [step, h]

theorem step_createEngine {w : World} {run : Int} {e : Engine} {m : Memory}
    (h : (Engine.create (w.context registry) run).run w.store = (.ok e, m)) :
    w.step registry (.createEngine run) =
      { w with store := m, engines := w.engines ++ [some e] } := by
  simp only [step, h]

theorem context_flows (registry : Registry) {w : World} (h : w.catalog = ⟨Table.empty.insert config.tag config⟩) :
    (w.context registry).flows config.tag = .ok config := by
  show w.catalog.resolve config.tag = .ok config
  rw [h, Catalog.resolve_eq_ok_iff]
  exact Table.get?_insert_self _ _ _

def deploying (config : FlowConfig) (engines : Nat) : List Action :=
  .publish config :: .createRun config.tag :: List.replicate engines (.createEngine 1)

section Deploying
variable (hv : config.tree.validate registry = .ok ()) (hb : config.tree.firstBranch = .ok b)
include hv hb

theorem after_deploying (engines : Nat) :
    empty.after registry (deploying config engines) = deployed config b engines := by
  induction engines with
  | zero =>
    let published : World := { empty with catalog := ⟨Table.empty.insert config.tag config⟩ }
    have hpublished : empty.step registry (.publish config) = published := by
      simp only [step, empty, Catalog.publish_empty hv, published]
    have hflow := context_flows registry (show published.catalog = _ from rfl)
    have hcreated : published.step registry (.createRun config.tag) = deployed config b 0 :=
      step_createRun (createRun_run hflow hb)
    rw [← hcreated, ← hpublished]
    rfl
  | succ engines ih =>
    let w := deployed config b engines
    have hflow := context_flows registry (show w.catalog = _ from rfl)
    have hrun : w.store.runs.get? 1 = some (b.newRun config.tag .empty) :=
      Table.get?_insert_self _ _ _
    have hstate : (b.newRun config.tag .empty).state = RunState.uninitialized.name := rfl
    have hengine : (Engine.create (w.context registry) 1).run w.store =
        (.ok (firstEngine config b), w.store) :=
      Engine.create_run hrun hstate hflow
    have hcreated : w.step registry (.createEngine 1) = deployed config b (engines + 1) := by
      rw [step_createEngine hengine]
      simp only [w, deployed, List.replicate_succ']
    have hlast : deploying config (engines + 1) = deploying config engines ++ [.createEngine 1] := by
      simp only [deploying, List.replicate_succ', List.cons_append]
    rw [hlast, after_concat, ih]
    exact hcreated

theorem grantsUpTo_deployed (engines : Nat) :
    GrantsUpTo registry Settings.standard.defaultRetryCount (deployed config b engines) := by
  have hempty : GrantsUpTo registry Settings.standard.defaultRetryCount empty :=
    .start .empty (UInt32.le_refl _)
  rw [← after_deploying hv hb]
  refine hempty.after fun a ha => ?_
  rcases List.mem_cons.mp ha with rfl | ha
  · trivial
  rcases List.mem_cons.mp ha with rfl | ha
  · trivial
  · rw [List.eq_of_mem_replicate ha]
    trivial

end Deploying

end World

/-! ## A small flow -/

namespace Reception

def greeting : StepTemplate where
  name := "greeting"
  stepType := MessageStep.typeName
  arguments := Table.empty.insert "text" (.str "Welcome.")
  actions := []
  exitPath := none
  resetTarget := none
  switchTarget := none
  retryCount := none

def account : StepTemplate where
  name := "account"
  stepType := Question.typeName
  arguments := (Table.empty.insert "input_type" (.str "digits")).insert "prompt" (.str "Account?")
  actions := []
  exitPath := some ⟨"hangup", .empty⟩
  resetTarget := none
  switchTarget := none
  retryCount := none

def desk : Branch := ⟨"desk", [greeting, account], true⟩

/-- Greets the caller, asks for an account and hangs up. -/
def flow : FlowConfig := ⟨"reception", ⟨[desk]⟩⟩

def world (engines : Nat) : World := .deployed flow desk engines

def opened : World := (world 1).step .builtins (.call 0 .prepare)

def greeted : World := opened.step .builtins (.call 0 (.run none))

def asked : World := greeted.step .builtins (.call 0 (.run none))

def misdialed : World := asked.step .builtins (.call 0 (.run (some "home")))

def answered : World := asked.step .builtins (.call 0 (.run (some "42")))

theorem grantsUpTo_world (engines : Nat) : World.GrantsUpTo .builtins 3 (world engines) :=
  World.grantsUpTo_deployed rfl rfl engines

theorem grantsUpTo_opened : World.GrantsUpTo .builtins 3 opened :=
  (grantsUpTo_world 1).step _ trivial

theorem grantsUpTo_greeted : World.GrantsUpTo .builtins 3 greeted := grantsUpTo_opened.step _ trivial

theorem grantsUpTo_misdialed : World.GrantsUpTo .builtins 3 misdialed :=
  (grantsUpTo_greeted.step (.call 0 (.run none)) trivial).step _ trivial

theorem reachable_world (engines : Nat) : World.Reachable .builtins (world engines) :=
  (grantsUpTo_world engines).reachable

theorem reachable_opened : World.Reachable .builtins opened := grantsUpTo_opened.reachable

theorem reachable_greeted : World.Reachable .builtins greeted := grantsUpTo_greeted.reachable

theorem reachable_answered : World.Reachable .builtins answered :=
  (reachable_greeted.step (.call 0 (.run none))).step _

def shared : World := (world 2).after .builtins [.call 0 .prepare, .call 0 (.run none)]

def joined : World :=
  let r := (shared.store.runs.get? 1).getD (desk.newRun flow.tag .empty)
  { shared with engines := shared.engines ++ [some ⟨flow, ⟨r, .stepInProgress⟩, .idle, none⟩] }

theorem reachable_joined : World.Reachable .builtins joined := by
  have hreachable : World.Reachable .builtins shared :=
    (reachable_world 2).trans (World.reaches_iff.mpr ⟨_, rfl⟩)
  have hstored : (shared.store.runs.get? 1).map (·.state) = some RunState.stepInProgress.name := by
    decide +kernel
  obtain ⟨r, hr, hstate⟩ := Option.map_eq_some_iff.mp hstored
  have htag : (shared.store.runs.get? 1).map (·.configTag) = some flow.tag := rfl
  rw [hr] at htag
  have hflow := World.context_flows .builtins
    (show shared.catalog = ⟨Table.empty.insert flow.tag flow⟩ from rfl)
  rw [← Option.some.inj htag] at hflow
  have hjoined : shared.step .builtins (.createEngine 1) = joined := by
    rw [World.step_createEngine (Engine.create_run hr hstate hflow), joined, hr]
    rfl
  exact hjoined ▸ hreachable.step _

end Reception

/-! ## A flow with a menu -/

namespace Helpline

def topic : StepTemplate where
  name := "topic"
  stepType := Menu.typeName
  arguments := (Table.empty.insert "prompt" (.str "Billing?")).insert "queue" (.str "")
  actions := [⟨"1", "billing", .select⟩]
  exitPath := some ⟨"hangup", .empty⟩
  resetTarget := none
  switchTarget := some "apology"
  retryCount := some 0

def menu : Menu where
  prompt := "Billing?"
  errorMessage := none
  actions := topic.actions
  exitKey := Menu.defaultExitKey
  queue := some ""
  sessionKey := "topic"

def regrets : StepTemplate where
  name := "regrets"
  stepType := MessageStep.typeName
  arguments := Table.empty.insert "text" (.str "Sorry.")
  actions := []
  exitPath := some ⟨"hangup", .empty⟩
  resetTarget := none
  switchTarget := none
  retryCount := none

def lines : Branch := ⟨"lines", [topic], true⟩

def apology : Branch := ⟨"apology", [regrets], true⟩

/-- Asks for a topic once and apologizes if there is no such topic. Its queue has no name. -/
def flow : FlowConfig := ⟨"helpline", ⟨[lines, apology]⟩⟩

def asked : World :=
  ((World.deployed flow lines 1).step .builtins (.call 0 .prepare)).step .builtins
    (.call 0 (.run none))

def unstaffed : World :=
  asked.step .builtins (.provide .empty { Settings.standard with exitQueuePath := "hangup" })

def misdialed : World := asked.step .builtins (.call 0 (.run (some "9")))

theorem reachable_asked : World.Reachable .builtins asked :=
  ((World.grantsUpTo_deployed rfl rfl 1).reachable.step (.call 0 .prepare)).step _

theorem reachable_unstaffed : World.Reachable .builtins unstaffed := reachable_asked.step _

theorem reachable_misdialed : World.Reachable .builtins misdialed := reachable_asked.step _

end Helpline
end CallFlow
