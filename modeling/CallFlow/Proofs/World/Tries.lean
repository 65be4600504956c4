import CallFlow.Proofs.World.Stopping

/-! # The tries of a caller

A caller who is asked for input may get it wrong, or may ask to hear the prompt again. Either is an
attempt on the same step run, and the budget of the step is compared with the attempts before. So a
request to hear the prompt again is always granted, but it uses up a try: a wrong answer is asked
for again while the wrong answers and the requests before it are together fewer than the retries of
the step. The next wrong answer ends the visit.
-/
namespace CallFlow
open Memory Work

namespace Engine
variable {ctx : Context} {m : Memory} {e : Engine} {p : PositionRecord} {b : BoundStep}
variable {raw : Option String} {error : StepError} {message : Option String} {r : RunRecord}
variable {x : StepBehavior.Execution} {w : Way} {answer : Except EngineError Outcome}

/-- The caller is asked again. The run waits for the input of the same step run, which has one more
attempt, and nothing else is new but its row. -/
inductive AsksAgain (registry : Registry) (m : Memory) (r : RunRecord) (b : BoundStep)
    (result : StepResult) : (Except EngineError Outcome × Engine) × Memory → Prop
  | intro {a session e' m' p'} (on : a.stepRun = b.stepRun.record.id)
      (arrives : Arrives registry m r a session .requestingUserInput (some b.stepRun.record) false
        e' m' ⟨b.step, b.stepRun.push a⟩ p') :
      AsksAgain registry m r b result
        ((.ok ⟨result, .step ⟨b.step, b.stepRun.push a⟩⟩, e'), m')

/-- The visit to a step is over: the run went on at the error branch of the step, or it was given
up. -/
inductive Leaves (registry : Registry) (m : Memory) (r : RunRecord) (p : PositionRecord)
    (b : BoundStep) : (Except EngineError Outcome × Engine) × Memory → Prop
  | switched {br t e' m' b' p'} (target : b.step.switchTarget = some br.name)
      (resumed : Resumed registry m r.id p br t e' m' b' p') :
      Leaves registry m r p b ((.ok ⟨.success none, .step b'⟩, e'), m')
  | stopped {reason a session e' m'} (on : a.stepRun = p.stepRun)
      (closes : m.Closes r a session .error m') :
      Leaves registry m r p b
        ((.error (.unrecoverable b.step.branch b.step.name reason), e'), m')

theorem Went.asksAgain {result : StepResult} (hm : m.Sound) (h : e.Seated ctx.registry m p b)
    (hg : e.Went ctx m p b raw x r w answer) (hway : w = .again .requestingUserInput)
    (hanswer : answer = .ok ⟨result, .step (w.step m e b (b.newAttempt raw x m.nextId m.clock))⟩) :
    AsksAgain ctx.registry m r b result (e.runStep ctx raw m) := by
  subst hway hanswer
  have harrives := hg.arrives hm h rfl
  rw [hg.answered]
  exact .intro rfl harrives

section Tries
variable (hm : m.Sound) (hw : e.config.tree.WellFormed ctx.registry)
variable (h : e.Seated ctx.registry m p b)
include hm hw h

/-- A request to hear the prompt again is granted, whatever the attempts before. -/
theorem Repeats.asksAgain (hr : e.Repeats ctx raw b message)
    (hstored : m.runs.get? e.run.record.id = some r) :
    AsksAgain ctx.registry m r b (.replay message) (e.runStep ctx raw m) := by
  obtain ⟨x, hx, hout⟩ := hr.asks
  obtain ⟨r', w, answer, hwent⟩ :=
    h.went hm hw hx (by rw [hout]; exact not_impossible_replay hr.current hr.input)
  obtain rfl : r' = r := Option.some.inj (hwent.stored.symm.trans hstored)
  cases hwent.goes with
  | replay outcome =>
    cases outcome.symm.trans hout
    exact hwent.asksAgain hm h rfl rfl
  | queue outcome | retry outcome | reset outcome | first outcome | switch outcome | stop outcome
  | deadEnd outcome => cases outcome.symm.trans hout
  | exit outcome completes | next outcome completes | last outcome completes =>
    cases outcome.symm.trans hout
    exact completes.elim

/-- A wrong answer within the budget of the step is asked for again. -/
theorem Trips.asksAgain (ht : e.Trips ctx raw b error) (hinput : b.step.isInput = true)
    (hstored : m.runs.get? e.run.record.id = some r)
    (hbudget : b.stepRun.attempts.length < ctx.budget b.step) :
    AsksAgain ctx.registry m r b (.error (retryMessage ctx b.step error) true error.resetStep)
      (e.runStep ctx raw m) := by
  obtain ⟨x, hx, hout⟩ := ht.fails
  obtain ⟨r', w, answer, hwent⟩ := h.went hm hw hx (by rw [hout]; exact not_impossible_error)
  obtain rfl : r' = r := Option.some.inj (hwent.stored.symm.trans hstored)
  have hgrants := (h.grants_self_iff hw ht.self).mpr hbudget
  rcases hwent.goes.of_error hw h hout with ⟨-, -, hretries, rfl⟩ | ⟨hdenied, -⟩
  · cases hretries with
    | self => exact hwent.asksAgain hm h (by rw [retried, if_pos hinput]) rfl
    | back targets | first targets => exact absurd (targets.name.trans ht.self) targets.other
  · exact absurd ⟨ht.retryable, hgrants⟩ hdenied

/-- A wrong answer beyond the budget of the step ends the visit. -/
theorem Trips.leaves (ht : e.Trips ctx raw b error)
    (hstored : m.runs.get? e.run.record.id = some r)
    (hbudget : ctx.budget b.step ≤ b.stepRun.attempts.length) :
    Leaves ctx.registry m r p b (e.runStep ctx raw m) := by
  obtain ⟨x, hx, hout⟩ := ht.fails
  obtain ⟨r', a, e', m', hr', hat, -, hdenied⟩ :=
    h.decidesRetry hm hw raw x error p b h.position ht.current hx hout ht.retryable
  obtain rfl : r' = r := Option.some.inj (hr'.symm.trans hstored)
  have hdenies : ¬ e.Grants ctx m b error := by
    rw [h.grants_self_iff hw ht.self]
    omega
  rcases hdenied hdenies with ⟨br, t, b', p', htarget, hran, hresumed⟩ | ⟨reason, hran, hcloses⟩
  · rw [hran]
    exact .switched htarget ((hm.runs hstored).1 ▸ hresumed)
  · rw [hran]
    exact .stopped hat hcloses

end Tries

/-- An entry that an input step does not accept is a wrong answer, if the step goes back to no
other one. -/
theorem trips_of_unbound {type : InputType} {cause : BindError}
    (hb : e.stepEngine.current? = some b) (hstate : e.run.state = .requestingUserInput)
    (htype : b.step.behavior.inputType = some type) (hunbound : type.bind raw = .error cause)
    (hreset : b.step.resetTarget = none) : e.Trips ctx raw b (.ofBindError cause) := by
  refine ⟨hb, ⟨_, execution_eq_some hb (.inl hstate), ?_⟩, rfl, ?_⟩
  · simp only [StepBehavior.execute, htype, hunbound]
  · rw [targetName, hreset]
    rfl

end Engine

namespace World
variable {registry : Registry} {w w' : World} {id stepRun : Int} {wrong heard : Nat}

/-- A request to hear the prompt again is always granted. A wrong answer is asked for again exactly
while the wrong answers and the requests before it are together fewer than the retries of the step.
-/
theorem tries_shared_with_replays {r : RunRecord} {s : StepRunRecord} {slot : Nat} {e : Engine}
    {b : BoundStep} {t : StepTemplate} (hw : Reachable registry w)
    (hs : w.store.stepRuns.get? stepRun = some s) (hrun : s.run = id)
    (hnone : w.store.attemptsOf stepRun = [])
    (h : Lingers registry id stepRun w wrong heard w')
    (hr : w'.store.runs.get? id = some r) (hready : w'.Ready id slot e)
    (hb : e.stepEngine.current? = some b) (hvisit : b.stepRun.record.id = stepRun)
    (hinput : b.step.isInput = true)
    (ht : e.config.tree.step b.step.branch b.step.name = .ok t) :
    (∀ raw error, e.Trips (w'.context registry) raw b error →
      (wrong + heard < t.limit w.settings.defaultRetryCount →
        Engine.AsksAgain registry w'.store r b
          (.error (retryMessage (w'.context registry) b.step error) true error.resetStep)
          (e.runStep (w'.context registry) raw w'.store)) ∧
      (t.limit w.settings.defaultRetryCount ≤ wrong + heard →
        ∃ p, Engine.Leaves registry w'.store r p b
          (e.runStep (w'.context registry) raw w'.store))) ∧
    ∀ raw message, e.Repeats (w'.context registry) raw b message →
      Engine.AsksAgain registry w'.store r b (.replay message)
        (e.runStep (w'.context registry) raw w'.store) := by
  obtain ⟨hsettings, -, hlength⟩ := h.attempts hw.sound hs hrun hnone
  have hsound := h.reaches.sound hw.sound
  obtain ⟨hwell, p, hseated⟩ := hsound.ready_at hready hb
  have hstored : w'.store.runs.get? e.run.record.id = some r := hready.run ▸ hr
  have hbudget : (w'.context registry).budget b.step = t.limit w.settings.defaultRetryCount := by
    rw [← hsettings]
    exact hseated.budget_eq_limit hwell ht
  rw [← hvisit, ← hseated.attempts] at hlength
  constructor
  · intro raw error htrips
    rw [← hbudget, ← hlength]
    exact ⟨fun hless => htrips.asksAgain hsound.store hwell hseated hinput hstored hless,
      fun hspent => ⟨p, htrips.leaves hsound.store hwell hseated hstored hspent⟩⟩
  · intro raw message hrepeats
    exact hrepeats.asksAgain hsound.store hwell hseated hstored

end World

/-! ## A menu that can be heard again -/

namespace Directory

def department : StepTemplate where
  name := "department"
  stepType := Menu.typeName
  arguments := Table.empty.insert "prompt" (.str "Sales?")
  actions := [⟨"1", "sales", .select⟩, ⟨"9", "again", .again⟩]
  exitPath := some ⟨"hangup", .empty⟩
  resetTarget := none
  switchTarget := none
  retryCount := some 1

def lobby : Branch := ⟨"lobby", [department], true⟩

/-- Asks for a department and lets the caller get it wrong once. -/
def flow : FlowConfig := ⟨"directory", ⟨[lobby]⟩⟩

def opened : World := (World.deployed flow lobby 1).step .builtins (.call 0 .prepare)

def asked : World := opened.step .builtins (.call 0 (.run none))

def heard : World := asked.step .builtins (.call 0 (.run (some "9")))

theorem reachable_opened : World.Reachable .builtins opened :=
  (World.grantsUpTo_deployed rfl rfl 1).reachable.step _

theorem lingers_heard : World.Lingers .builtins 1 2 opened 0 0 asked ∧
    World.Lingers .builtins 1 2 opened 0 1 heard := by
  obtain ⟨e, p, b, he, hid, hv, hp, hb, hinput, hstate⟩ : ∃ e p b, opened.engine? 0 = some e ∧
      e.run.record.id = 1 ∧
      (opened.store.runs.get? 1).map (·.version) = some e.run.record.version ∧
      e.position = some p ∧ e.stepEngine.current? = some b ∧ b.step.isInput = true ∧
      e.run.state = .initialized :=
    ⟨_, _, _, rfl, rfl, rfl, rfl, rfl, rfl, rfl⟩
  obtain ⟨f, q, c, y, hf, hfid, hfv, hq, hc, hcinput, hcvisit, hy, hyout⟩ : ∃ f q c y,
      asked.engine? 0 = some f ∧ f.run.record.id = 1 ∧
      (asked.store.runs.get? 1).map (·.version) = some f.run.record.version ∧
      f.position = some q ∧ f.stepEngine.current? = some c ∧ c.step.isInput = true ∧
      c.stepRun.record.id = 2 ∧ f.execution? (asked.context .builtins) (some "9") = some y ∧
      y.outcome = .ok (.replay (some "Sales?")) :=
    ⟨_, _, _, _, rfl, rfl, rfl, rfl, rfl, rfl, rfl, rfl, rfl⟩
  obtain ⟨-, -, hready⟩ := World.exists_ready he hid hp hv
  obtain ⟨-, -, hready'⟩ := World.exists_ready hf hfid hq hfv
  have hasked : World.Lingers .builtins 1 2 opened 0 0 asked :=
    .prompted .start hready hb hinput (by simp [hstate]) (by simp [hstate, RunState.Going])
  exact ⟨hasked, .heard hasked hready' ⟨hc, hcinput, y, hy, hyout⟩ hcvisit⟩

end Directory

namespace World

/-- A wrong answer is asked for again, but not after the menu was heard again. The menu can be heard
once more all the same. -/
theorem tries_shared_with_replays_directory : ∃ (e f : Engine) (r r' : RunRecord) (b c : BoundStep)
    (p : PositionRecord), Directory.asked.engine? 0 = some e ∧
    Directory.heard.engine? 0 = some f ∧
    Engine.AsksAgain .builtins Directory.asked.store r b
      (.error "expected one of 1, 9, 0, got '7'" true none)
      (e.runStep (Directory.asked.context .builtins) (some "7") Directory.asked.store) ∧
    Engine.Leaves .builtins Directory.heard.store r' p c
      (f.runStep (Directory.heard.context .builtins) (some "7") Directory.heard.store) ∧
    Engine.AsksAgain .builtins Directory.heard.store r' c (.replay (some "Sales?"))
      (f.runStep (Directory.heard.context .builtins) (some "9") Directory.heard.store) := by
  obtain ⟨s, e, q, b, hs, hrun, hnone, he, hid, hv, hq, hb, hvisit, hinput, ht, hstate, htype,
      hunbound, hreset, hmessage⟩ : ∃ s e q b, Directory.opened.store.stepRuns.get? 2 = some s ∧
      s.run = 1 ∧ Directory.opened.store.attemptsOf 2 = [] ∧ Directory.asked.engine? 0 = some e ∧
      e.run.record.id = 1 ∧
      (Directory.asked.store.runs.get? 1).map (·.version) = some e.run.record.version ∧
      e.position = some q ∧ e.stepEngine.current? = some b ∧ b.stepRun.record.id = 2 ∧
      b.step.isInput = true ∧
      e.config.tree.step b.step.branch b.step.name = .ok Directory.department ∧
      e.run.state = .requestingUserInput ∧
      b.step.behavior.inputType = some (.selection ["1", "9", "0"]) ∧
      (InputType.selection ["1", "9", "0"]).bind (some "7") =
        .error (.invalid "one of 1, 9, 0" "7") ∧ b.step.resetTarget = none ∧
      retryMessage (Directory.asked.context .builtins) b.step
        (.ofBindError (.invalid "one of 1, 9, 0" "7")) = "expected one of 1, 9, 0, got '7'" :=
    ⟨_, _, _, _, rfl, rfl, rfl, rfl, rfl, rfl, rfl, rfl, rfl, rfl, rfl, rfl, rfl, rfl, rfl, rfl⟩
  obtain ⟨f, q', c, y, hf, hfid, hfv, hq', hc, hcvisit, hcinput, hct, hcstate, hctype, hcreset, hy,
      hyout⟩ : ∃ f q' c y, Directory.heard.engine? 0 = some f ∧ f.run.record.id = 1 ∧
      (Directory.heard.store.runs.get? 1).map (·.version) = some f.run.record.version ∧
      f.position = some q' ∧ f.stepEngine.current? = some c ∧ c.stepRun.record.id = 2 ∧
      c.step.isInput = true ∧
      f.config.tree.step c.step.branch c.step.name = .ok Directory.department ∧
      f.run.state = .requestingUserInput ∧
      c.step.behavior.inputType = some (.selection ["1", "9", "0"]) ∧ c.step.resetTarget = none ∧
      f.execution? (Directory.heard.context .builtins) (some "9") = some y ∧
      y.outcome = .ok (.replay (some "Sales?")) :=
    ⟨_, _, _, _, rfl, rfl, rfl, rfl, rfl, rfl, rfl, rfl, rfl, rfl, rfl, rfl, rfl⟩
  obtain ⟨hasked, hheard⟩ := Directory.lingers_heard
  obtain ⟨r, hr, hready⟩ := exists_ready he hid hq hv
  obtain ⟨r', hr', hready'⟩ := exists_ready hf hfid hq' hfv
  obtain ⟨hwrong, -⟩ := tries_shared_with_replays Directory.reachable_opened hs hrun hnone hasked hr
    hready hb hvisit hinput ht
  obtain ⟨hwrong', hagain⟩ := tries_shared_with_replays Directory.reachable_opened hs hrun hnone
    hheard hr' hready' hc hcvisit hcinput hct
  have hfirst := (hwrong (some "7") _ (Engine.trips_of_unbound hb hstate htype hunbound hreset)).1
    (by decide)
  rw [hmessage] at hfirst
  obtain ⟨-, hspent⟩ :=
    hwrong' (some "7") _ (Engine.trips_of_unbound hc hcstate hctype hunbound hcreset)
  obtain ⟨p, hsecond⟩ := hspent (by decide)
  exact ⟨e, f, r, r', b, c, p, he, hf, hfirst, hsecond,
    hagain (some "9") _ ⟨hc, hcinput, y, hy, hyout⟩⟩

/-- The first wrong answer of a caller who heard the menu again is not asked for again, although
the step has a retry and goes back to no other step. -/
theorem replay_uses_up_a_try : ∃ e b t cause e' m', Directory.heard.engine? 0 = some e ∧
    e.stepEngine.current? = some b ∧
    Directory.opened.store.stepRuns.get? 2 = some b.stepRun.record ∧
    Directory.opened.store.attemptsOf 2 = [] ∧
    Lingers .builtins 1 2 Directory.opened 0 1 Directory.heard ∧ b.step.isInput = true ∧
    e.config.tree.step b.step.branch b.step.name = .ok t ∧ t.resetTarget = none ∧
    t.limit Directory.heard.settings.defaultRetryCount = 1 ∧
    e.Trips (Directory.heard.context .builtins) (some "7") b (.ofBindError cause) ∧
    e.runStep (Directory.heard.context .builtins) (some "7") Directory.heard.store =
      ((.error (.unrecoverable "lobby" "department"
        (.budgetExhausted 1 "expected one of 1, 9, 0, got '7'")), e'), m') := by
  obtain ⟨e, q, b, x, he, hid, hv, hq, hb, hs, hbranch, hname, hinput, ht, hstate, htype, hunbound,
      hreset, hswitch, hx, hout, hbudget, hspent⟩ : ∃ e q b x,
      Directory.heard.engine? 0 = some e ∧ e.run.record.id = 1 ∧
      (Directory.heard.store.runs.get? 1).map (·.version) = some e.run.record.version ∧
      e.position = some q ∧ e.stepEngine.current? = some b ∧
      Directory.opened.store.stepRuns.get? 2 = some b.stepRun.record ∧ b.step.branch = "lobby" ∧
      b.step.name = "department" ∧ b.step.isInput = true ∧
      e.config.tree.step b.step.branch b.step.name = .ok Directory.department ∧
      e.run.state = .requestingUserInput ∧
      b.step.behavior.inputType = some (.selection ["1", "9", "0"]) ∧
      (InputType.selection ["1", "9", "0"]).bind (some "7") =
        .error (.invalid "one of 1, 9, 0" "7") ∧ b.step.resetTarget = none ∧
      b.step.switchTarget = none ∧
      e.execution? (Directory.heard.context .builtins) (some "7") = some x ∧
      x.outcome = .error (.ofBindError (.invalid "one of 1, 9, 0" "7")) ∧
      (Directory.heard.context .builtins).budget b.step = 1 ∧ 1 ≤ b.stepRun.attempts.length :=
    ⟨_, _, _, _, rfl, rfl, rfl, rfl, rfl, rfl, rfl, rfl, rfl, rfl, rfl, rfl, rfl, rfl, rfl, rfl,
      rfl, rfl, by decide⟩
  obtain ⟨-, hlingers⟩ := Directory.lingers_heard
  obtain ⟨r, hr, hready⟩ := exists_ready he hid hq hv
  have hsound := hlingers.reaches.sound Directory.reachable_opened.sound
  obtain ⟨hwell, p, hseated⟩ := hsound.ready_at hready hb
  have htrips : e.Trips (Directory.heard.context .builtins) (some "7") b _ :=
    Engine.trips_of_unbound hb hstate htype hunbound hreset
  have hdenied : e.Denied (Directory.heard.context .builtins) Directory.heard.store b _
      (.budgetExhausted ((Directory.heard.context .builtins).budget b.step) _) :=
    .spent rfl htrips.self (hbudget ▸ hspent)
  have hanswer :
      (e.runStep (Directory.heard.context .builtins) (some "7") Directory.heard.store).1.1 = _ :=
    hseated.stops hsound.store hwell hx (.refused hout hdenied hswitch)
  rw [hbudget, hbranch, hname] at hanswer
  rcases hrun : e.runStep (Directory.heard.context .builtins) (some "7") Directory.heard.store with
    ⟨⟨answer, e'⟩, m'⟩
  rw [hrun] at hanswer
  obtain rfl := hanswer
  exact ⟨e, b, Directory.department, _, e', m', he, hb, hs, rfl, hlingers, hinput, ht, rfl, rfl,
    htrips, hrun⟩

end World
end CallFlow
