import CallFlow.Proofs.World.Atomicity

/-! # The log of a run

The units of work on a run are committed one after the other. The calls that committed them make up
the log of the run, which is as long as the run's version is high. A call leaves its run waiting for
input only if it has asked for it, and with an answer that names the step run that the input is
awaited at.
-/
namespace CallFlow
open Memory Work

namespace Engine
variable {ctx : Context} {m : Memory} {e e' : Engine} {p p' : PositionRecord} {b b' : BoundStep}
variable {raw : Option String} {answer : Except EngineError Outcome} {c : Change} {n : Int}

/-- The answers that ask for the input of a step: it was prompted for without being executed, it
asked for its prompt to be played again, or a failure led back to it. -/
inductive Asks (ctx : Context) (e : Engine) (raw : Option String) (b : BoundStep) : Outcome → Prop
  | start (waits : e.execution? ctx raw = none) :
      Asks ctx e raw b ⟨.success b.step.behavior.prompt, .step b⟩
  | replay {x message} (executed : e.execution? ctx raw = some x)
      (outcome : x.outcome = .ok (.replay message)) : Asks ctx e raw b ⟨.replay message, .step b⟩
  | retry {x error failed} (executed : e.execution? ctx raw = some x)
      (outcome : x.outcome = .error error) (retryable : error.retryable = true)
      (current : e.stepEngine.current? = some failed)
      (target : b.step.name = targetName failed.step error) :
      Asks ctx e raw b
        ⟨.error (retryMessage ctx failed.step error) true error.resetStep, .step b⟩

theorem Goes.asks {a : AttemptRecord} {x : StepBehavior.Execution} {w : Way}
    (h : e.Goes ctx m b a x w answer) (hb : e.stepEngine.current? = some b)
    (hx : e.execution? ctx raw = some x)
    (hwaits : (w.engine m e b a x).run.state = .requestingUserInput) :
    ∃ outcome, answer = .ok outcome ∧ e.Asks ctx raw (w.step m e b a) outcome := by
  cases h with
  | replay outcome => exact ⟨_, rfl, .replay hx outcome⟩
  | retry outcome retryable self => exact ⟨_, rfl, .retry hx outcome retryable hb self.symm⟩
  | reset outcome retryable targets => exact ⟨_, rfl, .retry hx outcome retryable hb targets.name⟩
  | first outcome retryable targets => exact ⟨_, rfl, .retry hx outcome retryable hb targets.name⟩
  | queue | exit | last | stop | deadEnd => cases hwaits
  | next | switch => cases hwaits

/-- A call that leaves its run waiting for input has asked for it. -/
theorem Played.asks (h : e.Played ctx m p b raw answer c n e' p' b')
    (hb : e.stepEngine.current? = some b) (hwaits : e'.run.state = .requestingUserInput) :
    ∃ outcome, answer = .ok outcome ∧ e.Asks ctx raw b' outcome := by
  cases h with
  | prompted prompts => exact ⟨_, rfl, .start prompts.waits⟩
  | executed executed goes => exact goes.asks hb executed hwaits

theorem waiting_of_execution {x : StepBehavior.Execution} (hb : e.stepEngine.current? = some b)
    (hinput : b.step.isInput = true) (hx : e.execution? ctx raw = some x) :
    e.run.state = .requestingUserInput := by
  by_contra hstate
  rw [execution_eq_none hb hinput hstate] at hx
  cases hx

end Engine

namespace World

/-! ## Logs -/

structure Made where
  ctx : Context
  store : Memory
  engine : Engine
  call : Call

namespace Made

def Asks (d : Made) (s : StepRunRecord) : Prop :=
  ∃ raw b outcome e m, d.call = .run raw ∧
    d.engine.runStep d.ctx raw d.store = ((.ok outcome, e), m) ∧
    d.engine.Asks d.ctx raw b outcome ∧ b.stepRun.record = s

/-- The call has executed the step at the step run, and what came of it is the attempt. -/
def Records (d : Made) (s : StepRunRecord) (a : AttemptRecord) : Prop :=
  ∃ raw b x, d.call = .run raw ∧ d.engine.stepEngine.current? = some b ∧ b.stepRun.record = s ∧
    d.engine.execution? d.ctx raw = some x ∧
    a = b.newAttempt raw x d.store.nextId d.store.clock ∧
    d.store.attempts.get? a.id = none ∧
    (d.engine.runStep d.ctx raw d.store).2.attempts.get? a.id = some a

/-- An attempt is recorded by the call that has executed its step. If the step takes input, the run
was waiting for it. -/
theorem records_of_played {ctx : Context} {m : Memory} {e e' : Engine} {p p' : PositionRecord}
    {b b' : BoundStep} {raw : Option String} {answer : Except EngineError Outcome} {c : Change}
    {n run : Int} {r : RunRecord} {a : AttemptRecord} (hm : m.Sound) (hfits : c.Fits m n run)
    (hb : e.stepEngine.current? = some b) (h : e.Played ctx m p b raw answer c n e' p' b')
    (hstore : (e.runStep ctx raw m).2 = m.post c n r) (ha : c.attempt = some a) :
    (mk ctx m e (.run raw)).Records b.stepRun.record a ∧
      (b.step.isInput = true → e.run.state = .requestingUserInput) := by
  have hkept : (e.runStep ctx raw m).2.attempts.get? a.id = some a := by
    rw [hstore]
    exact (post_attempts_get? hm hfits).mpr (.inr ⟨ha, rfl⟩)
  cases h with
  | prompted => cases ha
  | executed executed goes =>
    rw [Way.change_attempt] at ha
    obtain rfl := Option.some.inj ha
    have hfresh := hm.attempts_fresh (Int.le_refl m.nextId)
    exact ⟨⟨raw, b, _, rfl, hb, rfl, executed, rfl, hfresh, hkept⟩,
      fun hinput => Engine.waiting_of_execution hb hinput executed⟩

end Made

variable {registry : Registry} {w : World} {id : Int}

def committed? (registry : Registry) (run : Int) (w : World) : Action → Option Made
  | .call slot c => (w.engine? slot).bind fun e =>
    if e.run.record.id = run ∧ e.Settles (w.context registry) w.store c then
      some ⟨w.context registry, w.store, e, c⟩
    else none
  | _ => none

/-- The calls that commit the units of work on a run, in their order. -/
def log (registry : Registry) (run : Int) : World → List Action → List Made
  | _, [] => []
  | w, a :: rest =>
    (w.committed? registry run a).toList ++ log registry run (w.step registry a) rest

theorem log_concat (registry : Registry) (run : Int) (w : World) (actions : List Action)
    (a : Action) : log registry run w (actions ++ [a]) =
      log registry run w actions ++ ((w.after registry actions).committed? registry run a).toList := by
  induction actions generalizing w with
  | nil => simp [log, after]
  | cons b rest ih =>
    simp only [List.cons_append, log, ih, after, List.foldl_cons, List.append_assoc]

theorem units_eq (registry : Registry) (run : Int) (w : World) (a : Action) :
    w.units registry run a = (w.committed? registry run a).toList.length := by
  cases a with
  | call slot c =>
    cases he : w.engine? slot with
    | none => simp only [units, committed?, he, Option.bind_none, Option.toList_none,
        List.length_nil, Int.ofNat_zero]
    | some e =>
      simp only [units, committed?, he, Option.bind_some]
      split <;> rfl
  | publish | provide | tick | createRun | createEngine => rfl

/-- The log is as long as there are units of work. -/
theorem unitsIn_eq (registry : Registry) (run : Int) (w : World) (actions : List Action) :
    unitsIn registry run w actions = (log registry run w actions).length := by
  induction actions generalizing w with
  | nil => rfl
  | cons a rest ih =>
    simp only [unitsIn, log, List.length_append, Int.natCast_add, units_eq, ih]

/-- The version of a run is the length of its log, so no call that was committed is left out. -/
theorem version_eq_length_log {actions : List Action} {r : RunRecord}
    (hr : (empty.after registry actions).store.runs.get? id = some r) :
    r.version = (log registry id empty actions).length := by
  have hafter := (sound_empty registry).versionOf_after loaded_empty actions id
  rw [versionOf_of_get? hr, unitsIn_eq] at hafter
  rw [hafter]
  exact Int.zero_add _

/-! ## One action -/

/-- What an action does to a run and to its log. Another run is none of its business, a run is
created without a log, and a turn is logged. -/
inductive Logs (registry : Registry) (w : World) (id : Int) : Memory → Option Made → Prop
  | quiet {m} (leg : SameLeg w.store m id) : Logs registry w id m none
  | created {m config r} (named : r.id = id) (stored : m.runs.get? id = some r)
      (fresh : m.Unprepared config r) : Logs registry w id m none
  | turned {e e' : Engine} {x : Change} {n version : Int} {p : PositionRecord} {b : BoundStep}
      {d : Made} (run : e.run.record.id = id)
      (flow : w.catalog.resolve e.run.record.configTag = .ok e.config)
      (turn : e.Turn registry w.store x n e' p b)
      (asks : e'.run.state = .requestingUserInput → d.Asks b.stepRun.record)
      (records : ∀ a, x.attempt = some a → ∃ p b, e.Seated registry w.store p b ∧
        d.Records b.stepRun.record a ∧
        (b.step.isInput = true → e.run.state = .requestingUserInput)) :
      Logs registry w id (w.store.post x n (e'.stored version w.store.clock)) (some d)

namespace Sound
variable {slot : Nat} {e : Engine} (h : w.Sound registry) (he : w.engine? slot = some e)
include h he

theorem logs_run (raw : Option String) :
    w.Logs registry e.run.record.id (e.runStep (w.context registry) raw w.store).2
      (w.committed? registry e.run.record.id (.call slot (.run raw))) := by
  have hadmitted := h.engines he
  have hw := h.flows hadmitted.flow
  simp only [committed?, he, Option.bind_some, true_and]
  rcases Engine.runStep_played (w.context registry) h.store hw hadmitted raw with
    ⟨hrefused, hgrows⟩ | ⟨p, b, answer, x, n, e', p', b', r, hseated, hplayed, hr, -, hran⟩
  · have hsettles : ¬ e.Settles (w.context registry) w.store (.run raw) := hrefused
    rw [if_neg hsettles]
    exact .quiet (hgrows.tables.sameLeg _)
  · obtain ⟨hturn, hanswered⟩ := hplayed.turn h.store hw hseated
    have hsettles : e.Settles (w.context registry) w.store (.run raw) := by
      show Committed (e.runStep _ raw w.store).1.1
      rw [hran]
      exact hanswered.committed
    have hcurrent := hseated.holds.current
    rw [if_pos hsettles, hran]
    refine .turned rfl hadmitted.flow hturn (fun hwaits => ?_) fun a ha => ⟨p, b, hseated, ?_⟩
    · obtain ⟨outcome, rfl, hasks⟩ := hplayed.asks hcurrent hwaits
      exact ⟨raw, b', outcome, _, _, rfl, hran, hasks, rfl⟩
    · exact Made.records_of_played h.store hturn.fits hcurrent hplayed (congrArg Prod.snd hran) ha

theorem logs_prepare (hloaded : w.Loaded) :
    w.Logs registry e.run.record.id (e.call (w.context registry) w.store .prepare).2
      (w.committed? registry e.run.record.id (.call slot .prepare)) := by
  simp only [committed?, he, Option.bind_some, true_and]
  by_cases hnone : w.store.positionsOf e.run.record.id = []
  · obtain ⟨e₁, m, r, r', hrun, hr, hv, hr', hv'⟩ := h.prepare_first he hloaded hnone
    have hsettles : e.Settles (w.context registry) w.store .prepare := by
      refine ⟨hnone, ?_⟩
      rw [hrun]
      trivial
    have hcalled := h.call_called he .prepare
    rw [if_pos hsettles]
    unfold Engine.call at hcalled ⊢
    simp only [hrun] at hcalled ⊢
    cases hcalled with
    | read =>
      -- a version that went from zero to one was written
      obtain rfl : r = r' := Option.some.inj (hr.symm.trans hr')
      omega
    | turned turn stored version turned =>
      cases turned with
      | opened _ _ opened =>
        cases opened with
        | intro =>
          exact .turned rfl (h.engines he).flow turn (fun hwaits => by cases hwaits)
            fun a ha => by cases ha
      | played seated =>
        -- a seated engine has a position
        have hlatest := seated.underway.latest
        rw [latestPosition, hnone] at hlatest
        cases hlatest
  · have hsettles : ¬ e.Settles (w.context registry) w.store .prepare := fun hs => hnone hs.1
    rw [if_neg hsettles, Engine.call_store, prepare_reads _ hnone]
    exact .quiet (.refl _ _)

end Sound

theorem Sound.logs (h : w.Sound registry) (hloaded : w.Loaded) (a : Action) (id : Int) :
    w.Logs registry id (w.step registry a).store (w.committed? registry id a) := by
  cases a with
  | publish config =>
    simp only [World.step]
    split <;> exact .quiet (.refl _ _)
  | provide => exact .quiet (.refl _ _)
  | tick clock =>
    have hsame : SameTables w.store { w.store with clock } := ⟨rfl, rfl, rfl, rfl⟩
    exact .quiet (hsame.sameLeg id)
  | createRun tag =>
    simp only [World.step]
    rcases createRun_cases (w.context registry) tag w.store with hrun | ⟨config, b, -, hb, hrun⟩ <;>
      rw [hrun]
    · exact .quiet (.refl _ _)
    · by_cases hnew : id = w.store.nextId
      · subst hnew
        exact .created rfl (Table.get?_insert_self _ _ _)
          (unprepared_created h.store rfl rfl rfl hb rfl)
      · exact .quiet (sameLeg_created hnew)
  | createEngine run =>
    obtain ⟨hstore, -⟩ := Engine.create_reads (w.context registry) run w.store
    simp only [World.step]
    rcases hrun : (Engine.create (w.context registry) run).run w.store with ⟨failure | e, m⟩ <;>
      rw [hrun] at hstore <;> exact .quiet (hstore ▸ .refl _ _)
  | call slot c =>
    cases he : w.engine? slot with
    | none =>
      simp only [World.step, committed?, he]
      exact .quiet (.refl _ _)
    | some e =>
      have hstep : (w.step registry (.call slot c)).store =
          (e.call (w.context registry) w.store c).2 := by
        simp only [World.step, he]
      rw [hstep]
      by_cases hid : e.run.record.id = id
      · subst hid
        cases c with
        | prepare => exact h.logs_prepare he hloaded
        | run raw => exact h.logs_run he raw
      · have hnone : w.committed? registry id (.call slot c) = none := by
          simp only [committed?, he, Option.bind_some, hid, false_and, if_false]
        have hcalled := h.call_called he c
        rw [hnone]
        generalize e.call (w.context registry) w.store c = y at hcalled
        cases hcalled with
        | refused grows => exact .quiet (grows.tables.sameLeg id)
        | read => exact .quiet (.refl _ _)
        | @turned x n e' p b r turn =>
          have hleg := sameLeg_post (r := e'.stored (r.version + 1) w.store.clock) h.store turn.fits
            turn.same.id (Ne.symm hid)
          exact .quiet hleg

end World
end CallFlow
