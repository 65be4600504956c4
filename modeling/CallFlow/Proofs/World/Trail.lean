import CallFlow.Proofs.Step.Execution
import CallFlow.Proofs.World.Deployed

/-! # What a call adds to the audit trail

A committed call keeps every row that was there. A prompt adds nothing. An execution adds one
attempt at the current step, and a position exactly where the run goes on, goes back or switches
branch; only the switch sets a mark, and it sets it on the position that the run leaves. The
session is what the step left of it when it was run, or when its result was saved.
-/
namespace CallFlow
open Memory

namespace Memory

/-- The rows of a store are the rows of another one and those of a change. -/
structure Adds (m m' : Memory) (x : Change) : Prop where
  stepRuns : ∀ {id s}, m'.stepRuns.get? id = some s ↔
    m.stepRuns.get? id = some s ∨ x.visit = some s ∧ s.id = id
  attempts : ∀ {id a}, m'.attempts.get? id = some a ↔
    m.attempts.get? id = some a ∨ x.attempt = some a ∧ a.id = id
  /-- A position may have got a mark. -/
  positions : ∀ {id p}, m'.positions.get? id = some p ↔
    (∃ q, m.positions.get? id = some q ∧ x.mark q = p) ∨ x.position = some p ∧ p.id = id
  attemptsOf : ∀ stepRun, m'.attemptsOf stepRun =
    m.attemptsOf stepRun ++ x.attempt.toList.filter (·.stepRun = stepRun)

theorem adds_post {m : Memory} {x : Change} {n run : Int} {r : RunRecord} (hm : m.Sound)
    (hx : x.Fits m n run) : m.Adds (m.post x n r) x :=
  ⟨post_stepRuns_get? hm hx, post_attempts_get? hm hx, post_positions_get? hm hx,
    post_attemptsOf hm hx⟩

theorem Adds.attemptsOf_prefix {m m' : Memory} {x : Change} (h : m.Adds m' x) (stepRun : Int) :
    m.attemptsOf stepRun <+: m'.attemptsOf stepRun := by
  rw [h.attemptsOf]
  exact List.prefix_append _ _

end Memory

namespace Engine

def WentOn (x : StepBehavior.Execution) (answer : Except EngineError Outcome) : Prop :=
  ∃ result s, x.outcome = .ok result ∧ result.Completes ∧ answer = .ok ⟨result, .step s⟩

def WentBack (b : BoundStep) (x : StepBehavior.Execution) (answer : Except EngineError Outcome) :
    Prop :=
  ∃ error message reset s, x.outcome = .error error ∧
    answer = .ok ⟨.error message true reset, .step s⟩ ∧ s.step.name ≠ b.step.name

def Switched (x : StepBehavior.Execution) (answer : Except EngineError Outcome) : Prop :=
  ∃ error s, x.outcome = .error error ∧ answer = .ok ⟨.success none, .step s⟩

/-- What an execution of the step at a position adds. -/
structure Trails (p : PositionRecord) (b : BoundStep) (x : StepBehavior.Execution)
    (answer : Except EngineError Outcome) (c : Change) : Prop where
  attempt : ∃ a, c.attempt = some a ∧ a.stepRun = p.stepRun
  marked : ∀ id, c.marked = some id ↔ id = p.id ∧ Switched x answer
  position : c.position.isSome = true ↔ WentOn x answer ∨ WentBack b x answer ∨ Switched x answer
  order : ∀ q, c.position = some q → q.run = p.run ∧ q.order = p.order + 1
  visit : c.visit.isSome = true → c.position.isSome = true

/-- What a committed call at a step adds, and the session that it leaves. An input step that was not
asked for yet is prompted for; any other call runs the step. -/
inductive Accounts (e : Engine) (services : Services) (raw : Option String) (p : PositionRecord)
    (b : BoundStep) (session : Session) (answer : Except EngineError Outcome) :
    Change → Session → Prop
  | prompted (input : b.step.isInput = true) (unasked : e.run.state ≠ .requestingUserInput) :
      Accounts e services raw p b session answer .nothing session
  | executed {x c} (asked : b.step.isInput = true → e.run.state = .requestingUserInput)
      (yields : b.step.behavior.Yields services raw session x) (trails : Trails p b x answer c) :
      Accounts e services raw p b session answer c x.session

variable {ctx : Context} {m : Memory} {e e' : Engine} {p p' : PositionRecord} {b b' : BoundStep}
variable {a : AttemptRecord} {x : StepBehavior.Execution} {w : Way} {c : Change} {n : Int}
variable {answer : Except EngineError Outcome} {raw : Option String}

/-- A run that stays at its step neither goes on nor back, and does not switch. -/
theorem Goes.stays {state : RunState} (h : e.Goes ctx m b a x w answer)
    (hw : w = .again state ∨ w = .close state) :
    ¬ (WentOn x answer ∨ WentBack b x answer ∨ Switched x answer) := by
  rintro (⟨result, s, hout, hcompletes, rfl⟩ | ⟨error, message, reset, s, hout, rfl, hother⟩ |
    ⟨error, s, hout, rfl⟩)
  · cases h with
    | replay => exact hcompletes
    | next => simp at hw
    | retry outcome => simp [outcome] at hout
    | reset | first | switch => simp at hw
  · cases h with
    | retry => exact hother rfl
    | reset | first => simp at hw
    | next outcome => simp [outcome] at hout
  · cases h with
    | next => simp at hw
    | switch => simp at hw

theorem Goes.moves (h : e.Goes ctx m b a x w answer)
    (hw : (w.change m e p a).position.isSome = true) :
    WentOn x answer ∨ WentBack b x answer ∨ Switched x answer := by
  cases h with
  | next outcome completes => exact .inl ⟨_, _, outcome, completes, rfl⟩
  | reset outcome _ targets => exact .inr (.inl ⟨_, _, _, _, outcome, rfl, targets.other⟩)
  | first outcome _ targets => exact .inr (.inl ⟨_, _, _, _, outcome, rfl, targets.other⟩)
  | switch outcome => exact .inr (.inr ⟨_, _, outcome, rfl⟩)
  | replay | queue | exit | last | retry | stop | deadEnd => cases hw

theorem Goes.switched_iff (h : e.Goes ctx m b a x w answer) {id : Int} :
    (w.change m e p a).marked = some id ↔ id = p.id ∧ Switched x answer := by
  have hno (hnone : (w.change m e p a).marked = none)
      (hnot : ∀ error s, x.outcome = .error error → answer ≠ .ok ⟨.success none, .step s⟩) :
      (w.change m e p a).marked = some id ↔ id = p.id ∧ Switched x answer := by
    rw [hnone]
    refine ⟨nofun, ?_⟩
    rintro ⟨-, error, s, hout, hanswer⟩
    exact absurd hanswer (hnot error s hout)
  cases h with
  | switch outcome =>
    show some p.id = some id ↔ _
    rw [Option.some.injEq, eq_comm]
    exact ⟨fun hid => ⟨hid, _, _, outcome, rfl⟩, fun hid => hid.1⟩
  | replay outcome | queue outcome | exit outcome | next outcome =>
    refine hno rfl fun error s hout => ?_
    simp [outcome] at hout
  | retry | reset | first =>
    refine hno rfl fun error s _ hanswer => ?_
    cases hanswer
  | last | stop | deadEnd =>
    refine hno rfl fun error s _ hanswer => ?_
    cases hanswer

theorem Goes.trails (hm : m.Sound) (h : e.Seated ctx.registry m p b)
    (ha : a.stepRun = b.stepRun.record.id) (hg : e.Goes ctx m b a x w answer) :
    Trails p b x answer (w.change m e p a) := by
  obtain ⟨-, hcurrent, -⟩ := h.current_run hm
  have hrun : p.run = e.run.record.id := (mem_positionsOf.mp (latestPosition_mem h.underway.latest)).2
  have horder : e.nextOrder = p.order + 1 := by
    simp only [nextOrder, h.position, Option.map_some, Option.getD_some]
  constructor
  · refine ⟨a, ?_, ha.trans hcurrent.symm⟩
    cases w <;> rfl
  · exact fun id => hg.switched_iff
  · refine ⟨fun hposition => hg.moves hposition, fun hmoves => ?_⟩
    cases w with
    | again state => exact absurd hmoves (hg.stays (.inl rfl))
    | close state => exact absurd hmoves (hg.stays (.inr rfl))
    | back target visit => rfl
    | enter step state switched => rfl
  · intro q hq
    cases w <;> cases hq <;> exact ⟨hrun.symm, horder⟩
  · intro hvisit
    cases w <;> first | rfl | cases hvisit

theorem asked_of_execution (hb : e.stepEngine.current? = some b)
    (hx : e.execution? ctx raw = some x) (hinput : b.step.isInput = true) :
    e.run.state = .requestingUserInput := by
  by_contra hunasked
  cases (execution_eq_none hb hinput hunasked).symm.trans hx

theorem Played.accounts (hm : m.Sound) (h : e.Seated ctx.registry m p b)
    (hplayed : e.Played ctx m p b raw answer c n e' p' b') :
    e.Accounts ctx.services raw p b e.run.record.session answer c e'.run.record.session := by
  cases hplayed with
  | prompted prompts =>
    refine .prompted prompts.input fun hasked => ?_
    rcases prompts.state with hstate | hstate <;> cases hstate.symm.trans hasked
  | @executed x w answer executed goes =>
    have hyields := StepBehavior.execute_yields b.step.behavior ctx.services raw
      e.run.record.session
    rw [← execution_of_current h.holds.current executed] at hyields
    rw [Way.engine_session]
    exact .executed (asked_of_execution h.holds.current executed) hyields
      (goes.trails hm h rfl)

end Engine

namespace World
variable {registry : Registry} {w : World} {slot : Nat} {e used : Engine} {raw : Option String}
variable {answer : Except EngineError Outcome} {m : Memory}

/-- A call at the last position of a run left the rows of the store and those of the change. The
run has the session that is accounted for. -/
structure CallAdds (w : World) (e : Engine) (raw : Option String)
    (answer : Except EngineError Outcome) (m : Memory) (p : PositionRecord) (b : BoundStep)
    (c : Change) (r r' : RunRecord) : Prop where
  latest : w.store.latestPosition e.run.record.id = some p
  last : ∀ q ∈ w.store.positionsOf e.run.record.id, q.order ≤ p.order
  unmarked : p.branchedOnError = false
  step : e.stepEngine.current? = some b
  visit : b.stepRun.record.id = p.stepRun
  before : w.store.runs.get? e.run.record.id = some r
  after : m.runs.get? e.run.record.id = some r'
  rows : w.store.Adds m c
  attempts : ∀ id, w.store.attemptsOf id <+: m.attemptsOf id
  accounts : e.Accounts w.services raw p b r.session answer c r'.session

/-- The audit trail only grows, and by the rows of the committed call. A prompt adds none and leaves
the session alone. Otherwise the step is run, an attempt at it is added with at most one position
and one step run after it, and the session is what running it and saving its result left. -/
theorem committed_call_adds_its_rows (h : Reachable registry w) (he : w.engine? slot = some e)
    (hrun : e.runStep (w.context registry) raw w.store = ((answer, used), m))
    (hcommitted : Committed answer) : ∃ p b c r r', w.CallAdds e raw answer m p b c r r' := by
  have hsound := h.sound
  have hadmitted := hsound.engines he
  have hw := hsound.flows hadmitted.flow
  rcases Engine.runStep_played (w.context registry) hsound.store hw hadmitted raw with
    ⟨hrefused, -⟩ | ⟨p, b, answer', c, n, e', p', b', r, hseated, hplayed, hr, hv, hturned⟩
  · rw [hrun] at hrefused
    exact absurd hcommitted hrefused
  · rw [hrun] at hturned
    cases hturned
    have hturn := (hplayed.turn hsound.store hw hseated).1
    obtain ⟨-, hcurrent, -⟩ := hseated.current_run hsound.store
    have hsession : r.session = e.run.record.session := by
      rw [hseated.held.record_eq hr]
    have hadds := adds_post (r := e'.stored (r.version + 1) w.store.clock) hsound.store hturn.fits
    refine ⟨p, b, c, r, e'.stored (r.version + 1) w.store.clock, ?_⟩
    constructor
    case latest => exact hseated.underway.latest
    case last =>
      intro q hq
      rw [hseated.underway.recorded.order_latest hseated.underway.latest]
      exact hseated.underway.recorded.order_le hq
    case unmarked => exact hseated.underway.unmarked
    case step => exact hseated.holds.current
    case visit => exact hcurrent.symm
    case before => exact hr
    case after =>
      rw [post_runs, Table.get?_insert]
      exact if_pos hturn.same.id.symm
    case rows => exact hadds
    case attempts => exact hadds.attemptsOf_prefix
    case accounts =>
      rw [hsession]
      exact hplayed.accounts hsound.store hseated

/-- The greeting is recorded as an attempt at the first position, and the question comes at the
second. The session is what the greeting left of it. -/
theorem committed_call_adds_its_rows_reception : ∃ (p q : PositionRecord) (b : BoundStep)
    (c : Change) (a : AttemptRecord) (x : StepBehavior.Execution) (r : RunRecord),
      Reception.opened.store.latestPosition 1 = some p ∧ p.order = 1 ∧
      Reception.opened.store.Adds Reception.greeted.store c ∧
      c.attempt = some a ∧ a.stepRun = p.stepRun ∧ c.position = some q ∧ q.order = 2 ∧
      b.step.name = "greeting" ∧
      b.step.behavior.Yields Reception.opened.services none .empty x ∧
      Reception.greeted.store.runs.get? 1 = some r ∧ r.session = x.session := by
  obtain ⟨e, used, p, q, b, r, result, s, he, hid, hr, hsession, hp, horder, hb, hname, hinput, hrun,
      hq⟩ : ∃ e used p q b r result s, Reception.opened.engine? 0 = some e ∧
      e.run.record.id = 1 ∧ Reception.opened.store.runs.get? 1 = some r ∧ r.session = .empty ∧
      Reception.opened.store.latestPosition 1 = some p ∧ p.order = 1 ∧
      e.stepEngine.current? = some b ∧ b.step.name = "greeting" ∧ b.step.isInput = false ∧
      e.runStep (Reception.opened.context .builtins) none Reception.opened.store =
        ((.ok ⟨.success result, .step s⟩, used), Reception.greeted.store) ∧
      Reception.greeted.store.positions.get? 6 = some q :=
    ⟨_, _, _, _, _, _, _, _, rfl, rfl, rfl, rfl, rfl, rfl, rfl, rfl, rfl, rfl, rfl⟩
  obtain ⟨p', b', c, r₀, r', hadds⟩ :=
    committed_call_adds_its_rows Reception.reachable_opened he hrun trivial
  obtain rfl : p' = p := Option.some.inj (hadds.latest.symm.trans (hid ▸ hp))
  obtain rfl : b' = b := Option.some.inj (hadds.step.symm.trans hb)
  obtain rfl : r₀ = r := Option.some.inj (hadds.before.symm.trans (hid ▸ hr))
  have hposition : c.position = some q := by
    rcases hadds.rows.positions.mp hq with ⟨q', hbefore, -⟩ | ⟨hadded, -⟩
    · have hnone : Reception.opened.store.positions.get? 6 = none := rfl
      cases hnone.symm.trans hbefore
    · exact hadded
  have hafter := hadds.after
  have haccounts := hadds.accounts
  rw [hid] at hafter
  generalize hleft : r'.session = left at haccounts
  cases haccounts with
  | prompted input => cases hinput.symm.trans input
  | executed _ yields trails =>
    obtain ⟨a, ha, hstep⟩ := trails.attempt
    obtain ⟨-, hnext⟩ := trails.order q hposition
    refine ⟨p', q, b', c, a, _, r', hp, horder, hadds.rows, ha, hstep, hposition, by omega, hname,
      hsession ▸ yields, hafter, hleft⟩

end World
end CallFlow
