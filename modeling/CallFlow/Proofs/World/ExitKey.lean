import CallFlow.Proofs.World.Running

/-! # The exit key of a menu

Every menu has a key that lets the caller go to a queue. The exit path is built when the key is
pressed, from the queue of the menu and the settings, and a context only vouches for its kind to be
registered. So the key does what that kind makes of the queue: the run is finished, or the call is
refused and changes nothing. A flow can be published whose exit key is refused.
-/
namespace CallFlow
open Memory Work Engine

namespace Menu
variable {menu : Menu} {raw : Option String}

def ReadsExit (menu : Menu) (raw : Option String) : Prop :=
  (InputType.selection menu.keys).bind raw = .ok (.selection menu.exitKey)

theorem execute_exit (h : menu.ReadsExit raw) (services : Services) (session : Session) :
    (menu.behavior.execute services raw session).outcome = .ok (.exitQueue menu.queue) := by
  have hbind : (InputType.selection menu.keys).bind raw = .ok (.selection menu.exitKey) := h
  have hrun : menu.run ⟨some (.selection menu.exitKey), services⟩ session =
      (.ok (.exitQueue menu.queue), session) := by
    simp only [run, StepContext.requireInput, press]
    exact congrArg (·, session) (if_pos rfl)
  simp only [StepBehavior.execute, behavior, hbind, StepBehavior.perform, hrun, saveResult]

end Menu

theorem Context.create_eq_ok {flows : FlowSource} {registry : Registry} {services : Services}
    {settings : Settings} {ctx : Context}
    (h : Context.create flows registry services settings = .ok ctx) :
    ctx = ⟨flows, registry, services, settings⟩ ∧
      ∃ kind, registry.exitPaths.get? settings.exitQueuePath = some kind := by
  obtain ⟨-, h⟩ := check_eq_ok.mp h
  split at h
  · rename_i hkind
    cases h
    exact ⟨rfl, Table.exists_get?_of_contains hkind⟩
  · cases h

def Settings.queueArguments (settings : Settings) (queue : Option String) : Fields :=
  Table.empty.insert "queue" (.str (queue.getD settings.defaultQueue))

theorem Work.queueExit_eq {ctx : Context} {kind : ExitKind}
    (h : ctx.registry.exitPaths.get? ctx.settings.exitQueuePath = some kind)
    (queue : Option String) :
    queueExit ctx queue = kind (ctx.settings.queueArguments queue) := by
  simp only [queueExit, Registry.buildExit, h, Settings.queueArguments]

section Builtins
variable (settings : Settings) (queue : Option String)

theorem ExitPath.buildHangup_queue :
    buildHangup (settings.queueArguments queue) = .ok (.hangup none) := rfl

theorem ExitPath.buildHandoff_queue : buildHandoff (settings.queueArguments queue) =
    .error (.invalidArguments "handoff" (.missing "workflow")) := rfl

theorem ExitPath.buildTransfer_queue : buildTransfer (settings.queueArguments queue) =
    if queue.getD settings.defaultQueue = "" then
      .error (.invalidArguments "transfer_to_queue" .emptyQueue)
    else .ok (.transferToQueue (queue.getD settings.defaultQueue) none) := by
  have hread : Fields.requiredText (settings.queueArguments queue) "transfer_to_queue" "queue" =
      .ok (queue.getD settings.defaultQueue) := rfl
  unfold buildTransfer
  rw [hread]
  simp only [bind, Except.bind, String.isEmpty_iff]
  rfl

end Builtins

/-- By the built-in kinds of exit path a caller can leave for a queue if that is hanging up, or a
transfer to a queue that has a name. -/
theorem Work.queueExit_builtins {ctx : Context} (h : ctx.registry = .builtins)
    (queue : Option String) : (∃ path, queueExit ctx queue = .ok path) ↔
      ctx.settings.exitQueuePath = "hangup" ∨ ctx.settings.exitQueuePath = "transfer_to_queue" ∧
        queue.getD ctx.settings.defaultQueue ≠ "" := by
  have hkind := Registry.builtins_exitPaths ctx.settings.exitQueuePath
  rw [← h] at hkind
  by_cases hhandoff : ctx.settings.exitQueuePath = "handoff"
  · rw [if_pos hhandoff] at hkind
    simp [queueExit_eq hkind, ExitPath.buildHandoff_queue, hhandoff]
  by_cases htransfer : ctx.settings.exitQueuePath = "transfer_to_queue"
  · rw [if_neg hhandoff, if_pos htransfer] at hkind
    rw [queueExit_eq hkind, ExitPath.buildTransfer_queue]
    by_cases hname : queue.getD ctx.settings.defaultQueue = "" <;> simp [hname, htransfer]
  by_cases hhangup : ctx.settings.exitQueuePath = "hangup"
  · rw [if_neg hhandoff, if_neg htransfer, if_pos hhangup] at hkind
    simp [queueExit_eq hkind, ExitPath.buildHangup_queue, hhangup]
  · rw [if_neg hhandoff, if_neg htransfer, if_neg hhangup] at hkind
    simp [queueExit, Registry.buildExit, hkind, hhangup, htransfer]

namespace Engine

/-- How a call ends that is to leave for a queue: with the exit path, and the run finished, or
refused because there is none, and nothing changed. -/
def Departs (ctx : Context) (m : Memory) (e : Engine) (raw queue : Option String) :
    Except ConfigError ExitPath → Prop
  | .ok path => (e.runStep ctx raw m).1.1 = .ok ⟨.exitQueue queue, .exit path⟩ ∧
      ∃ r, (e.runStep ctx raw m).2.runs.get? e.run.record.id = some r ∧
        r.state = RunState.finished.name ∧ r.version = e.run.record.version + 1
  | .error cause => (e.runStep ctx raw m).1.1 = .error (.config cause) ∧
      SameTables m (e.runStep ctx raw m).2

variable {ctx : Context} {m : Memory} {e : Engine} {p : PositionRecord} {b : BoundStep}
variable {x : StepBehavior.Execution} {queue raw : Option String}

theorem Goes.leaves {a : AttemptRecord} {w : Way} {answer : Except EngineError Outcome}
    (h : e.Goes ctx m b a x w answer) (hout : x.outcome = .ok (.exitQueue queue)) :
    ∃ path, queueExit ctx queue = .ok path ∧ w = .close .finished ∧
      answer = .ok ⟨.exitQueue queue, .exit path⟩ := by
  cases h with
  | queue outcome built =>
    cases outcome.symm.trans hout
    exact ⟨_, built, rfl, rfl⟩
  | exit outcome completes | next outcome completes | last outcome completes =>
    cases outcome.symm.trans hout
    exact completes.elim
  | replay outcome | retry outcome | reset outcome | first outcome | switch outcome
  | stop outcome | deadEnd outcome => cases outcome.symm.trans hout

theorem Impossible.leaves {failure : EngineError} (h : e.Impossible ctx x.outcome failure)
    (hout : x.outcome = .ok (.exitQueue queue)) :
    ∃ cause, queueExit ctx queue = .error cause ∧ failure = .config cause := by
  cases h with
  | queue leaves missing =>
    cases leaves.symm.trans hout
    exact ⟨_, missing, rfl⟩
  | replay replays => cases replays.symm.trans hout

theorem Seated.departs {c : RunRecord} (hm : m.Sound)
    (hw : e.config.tree.WellFormed ctx.registry) (h : e.Seated ctx.registry m p b)
    (hc : m.runs.get? e.run.record.id = some c) (hv : c.version = e.run.record.version)
    (hx : e.execution? ctx raw = some x) (hout : x.outcome = .ok (.exitQueue queue)) :
    e.Departs ctx m raw queue (queueExit ctx queue) := by
  have hran := h.runStep_ran hm hw hc hv raw
  rcases hrun : e.runStep ctx raw m with ⟨⟨answer, e'⟩, m'⟩
  rw [hrun] at hran
  cases hran with
  | @committed answer y n e' p' b' played =>
    have hstored := (played.turn hm hw h).1.stored_run (c.version + 1) m.clock
    cases played with
    | prompted prompts => cases prompts.waits.symm.trans hx
    | executed executed goes =>
      cases executed.symm.trans hx
      obtain ⟨path, hbuilt, rfl, rfl⟩ := goes.leaves hout
      simp only [hbuilt, Departs, hrun]
      exact ⟨trivial, _, hstored, rfl, congrArg (· + 1) hv⟩
  | ended state =>
    obtain ⟨hfinished, herror⟩ := not_over_of_execution hx
    exact (state.elim hfinished herror).elim
  | refused refusal executed impossible grows =>
    cases executed.symm.trans hx
    obtain ⟨cause, hcause, rfl⟩ := impossible.leaves hout
    simp only [hcause, Departs, hrun]
    exact ⟨trivial, grows.tables⟩

end Engine

namespace World
variable {registry : Registry} {w : World} {r : RunRecord} {menu : Menu} {raw : Option String}

structure AwaitsKey (registry : Registry) (w : World) (r : RunRecord) (menu : Menu) : Prop where
  stored : w.store.runs.get? r.id = some r
  waits : r.state = RunState.requestingUserInput.name
  current : ∃ config p s step, w.catalog.resolve r.configTag = .ok config ∧
    w.store.latestPosition r.id = some p ∧ w.store.stepRuns.get? p.stepRun = some s ∧
    config.HasStep registry step ∧ s.Visits step ∧ step.behavior = menu.behavior

/-- An engine that is seated in a run that waits at a menu leaves when the exit key is pressed, or
is refused, as the exit path can be built or not. -/
theorem AwaitsKey.departs (h : w.AwaitsKey registry r menu) (hw : w.Sound registry)
    (hkey : menu.ReadsExit raw) {e : Engine} {p : PositionRecord} {b : BoundStep}
    (hid : e.run.record.id = r.id) (hflow : w.catalog.resolve r.configTag = .ok e.config)
    (hseated : e.Seated registry w.store p b) :
    e.Departs (w.context registry) w.store raw menu.queue
      (queueExit (w.context registry) menu.queue) := by
  obtain ⟨config, p', s, step, hconfig, hp, hs, hstep, hvisits, hmenu⟩ := h.current
  obtain rfl : config = e.config := Except.ok.inj (hconfig.symm.trans hflow)
  obtain rfl : p' = p := Option.some.inj (hp.symm.trans (hid ▸ hseated.underway.latest))
  obtain rfl : s = b.stepRun.record := Option.some.inj (hs.symm.trans hseated.underway.current)
  have hwell := hw.flows hflow
  obtain rfl : step = b.step := hstep.unique hwell hseated.step
    (hvisits.branch.symm.trans hseated.visits.branch) (hvisits.name.symm.trans hseated.visits.name)
  have hstate : e.run.state = .requestingUserInput :=
    RunState.name_inj ((hseated.held.state_eq (hid ▸ h.stored)).symm.trans h.waits)
  have hout := Menu.execute_exit hkey w.services e.run.record.session
  rw [← hmenu] at hout
  obtain ⟨c, hc, hv⟩ := hseated.held.version
  exact Seated.departs hw.store hwell hseated hc hv
    (execution_eq_some hseated.holds.current (.inl hstate)) hout

theorem AwaitsKey.fresh_departs (h : w.AwaitsKey registry r menu) (hw : w.Sound registry)
    (hkey : menu.ReadsExit raw) :
    ∃ e, (fresh (w.context registry) r.id).run w.store = (.ok e, w.store) ∧
      e.Departs (w.context registry) w.store raw menu.queue
        (queueExit (w.context registry) menu.queue) := by
  obtain ⟨config, p, s, hconfig, hu⟩ := hw.underway h.stored h.waits (by rintro ⟨⟩)
  obtain ⟨e, b, hfresh, rfl, hrun, hseated⟩ := fresh_underway (w.context registry)
    hw.store (hw.flows hconfig) hconfig h.stored hu
  exact ⟨e, hfresh, h.departs hw hkey (by rw [hrun]) hconfig hseated⟩

/-- With the built-in kinds the exit key of a menu works if callers are let go, or are transferred
to a queue that has a name. -/
theorem AwaitsKey.committed_iff (h : w.AwaitsKey .builtins r menu) (hw : w.Sound .builtins)
    (hkey : menu.ReadsExit raw) :
    ∃ e, (fresh (w.context .builtins) r.id).run w.store = (.ok e, w.store) ∧
      (Committed (e.runStep (w.context .builtins) raw w.store).1.1 ↔
        w.settings.exitQueuePath = "hangup" ∨ w.settings.exitQueuePath = "transfer_to_queue" ∧
          menu.queue.getD w.settings.defaultQueue ≠ "") := by
  obtain ⟨e, hfresh, hdeparts⟩ := h.fresh_departs hw hkey
  have hbuilds : (∃ path, queueExit (w.context .builtins) menu.queue = .ok path) ↔ _ :=
    queueExit_builtins rfl menu.queue
  refine ⟨e, hfresh, Iff.trans ?_ hbuilds⟩
  cases hpath : queueExit (w.context .builtins) menu.queue with
  | ok path =>
    rw [hpath] at hdeparts
    simp [hdeparts.1, Committed]
  | error cause =>
    rw [hpath] at hdeparts
    simp [hdeparts.1, Committed]

/-- The exit key does what the kind of exit path makes of the queue. Where that kind builds an exit
path the caller leaves by it and the run is finished; where it refuses the queue the call is refused
and changes nothing. -/
theorem exit_key_departs (h : Reachable registry w)
    (hctx : Context.create w.catalog.resolve registry w.services w.settings =
      .ok (w.context registry))
    (hmenu : w.AwaitsKey registry r menu) (hkey : menu.ReadsExit raw) :
    ∃ kind, registry.exitPaths.get? w.settings.exitQueuePath = some kind ∧
      (∃ e, (fresh (w.context registry) r.id).run w.store = (.ok e, w.store) ∧
        e.Departs (w.context registry) w.store raw menu.queue
          (kind (w.settings.queueArguments menu.queue))) ∧
      ∀ slot e, w.engine? slot = some e → e.run.record.id = r.id → ¬ e.Waiting →
        ¬ e.Stale w.store → e.Departs (w.context registry) w.store raw menu.queue
          (kind (w.settings.queueArguments menu.queue)) := by
  have hsound := h.sound
  obtain ⟨-, kind, hkind⟩ := Context.create_eq_ok hctx
  have hbuilt : queueExit (w.context registry) menu.queue =
      kind (w.settings.queueArguments menu.queue) := queueExit_eq hkind _
  refine ⟨kind, hkind, ?_, ?_⟩
  · obtain ⟨e, hfresh, hdeparts⟩ := hmenu.fresh_departs hsound hkey
    exact ⟨e, hfresh, hbuilt ▸ hdeparts⟩
  · intro slot e he hid hplaced hstale
    have hadmitted := hsound.engines he
    obtain ⟨hcurrent, hwaiting | ⟨p, b, hseated⟩⟩ := hadmitted.current hstale
    · exact absurd hwaiting hplaced
    · have htag : e.run.record.configTag = r.configTag := by
        rw [hcurrent.record_eq (hid ▸ hmenu.stored)]
      have hdeparts := hmenu.departs hsound hkey hid (htag ▸ hadmitted.flow) hseated
      exact hbuilt ▸ hdeparts

theorem awaitsKey_helpline :
    ∃ r, r.id = 1 ∧ Helpline.asked.AwaitsKey .builtins r Helpline.menu := by
  let step : Step := ⟨"topic", "lines", none, some "apology", some 0, Helpline.menu.behavior,
    Helpline.topic.snapshot⟩
  obtain ⟨r, p, s, hr, hid, hstate, htag, hp, hs, hvisits⟩ : ∃ r p s,
      Helpline.asked.store.runs.get? 1 = some r ∧ r.id = 1 ∧
      r.state = RunState.requestingUserInput.name ∧ r.configTag = Helpline.flow.tag ∧
      Helpline.asked.store.latestPosition 1 = some p ∧
      Helpline.asked.store.stepRuns.get? p.stepRun = some s ∧ s.Visits step :=
    ⟨_, _, _, rfl, rfl, rfl, rfl, rfl, rfl, ⟨rfl, rfl, rfl, rfl⟩⟩
  have hflow : Helpline.asked.catalog.resolve r.configTag = .ok Helpline.flow :=
    htag ▸ context_flows .builtins (show Helpline.asked.catalog = _ from rfl)
  have hstep : Helpline.flow.HasStep .builtins step :=
    ⟨Helpline.lines, .head _, Helpline.topic, .head _, Step.ofTemplate_eq_ok.mp rfl⟩
  exact ⟨r, hid, hid ▸ hr, hstate, Helpline.flow, p, s, step, hflow, hid ▸ hp, hs, hstep, hvisits,
    rfl⟩

/-- The queue of the helpline has no name. By the standard settings the exit key is refused and the
run goes on waiting; it works where callers are let go instead. -/
theorem exit_key_departs_helpline :
    Helpline.flow.tree.validate .builtins = .ok () ∧
    Context.create Helpline.asked.catalog.resolve .builtins Helpline.asked.services
      Helpline.asked.settings = .ok (Helpline.asked.context .builtins) ∧
    Helpline.menu.ReadsExit (some "0") ∧
    (∃ r e, r.id = 1 ∧ Helpline.asked.AwaitsKey .builtins r Helpline.menu ∧
      (Engine.fresh (Helpline.asked.context .builtins) 1).run Helpline.asked.store =
        (.ok e, Helpline.asked.store) ∧
      (e.runStep (Helpline.asked.context .builtins) (some "0") Helpline.asked.store).1.1 =
        .error (.config (.invalidArguments "transfer_to_queue" .emptyQueue)) ∧
      SameTables Helpline.asked.store
        (e.runStep (Helpline.asked.context .builtins) (some "0") Helpline.asked.store).2) ∧
    ∃ e, (Engine.fresh (Helpline.unstaffed.context .builtins) 1).run Helpline.unstaffed.store =
        (.ok e, Helpline.unstaffed.store) ∧
      (e.runStep (Helpline.unstaffed.context .builtins) (some "0")
        Helpline.unstaffed.store).1.1 = .ok ⟨.exitQueue (some ""), .exit (.hangup none)⟩ := by
  obtain ⟨r, hid, hasked⟩ := awaitsKey_helpline
  have hunstaffed : Helpline.unstaffed.AwaitsKey .builtins r Helpline.menu :=
    ⟨hasked.stored, hasked.waits, hasked.current⟩
  have hkey : Helpline.menu.ReadsExit (some "0") := rfl
  refine ⟨rfl, rfl, hkey, ?_, ?_⟩
  · obtain ⟨kind, hkind, ⟨e, hfresh, hdeparts⟩, -⟩ :=
      exit_key_departs Helpline.reachable_asked rfl hasked hkey
    cases hkind
    exact ⟨r, e, hid, hasked, hid ▸ hfresh, hdeparts⟩
  · obtain ⟨kind, hkind, ⟨e, hfresh, hdeparts⟩, -⟩ :=
      exit_key_departs Helpline.reachable_unstaffed rfl hunstaffed hkey
    cases hkind
    exact ⟨e, hid ▸ hfresh, hdeparts.1⟩

end World
end CallFlow
