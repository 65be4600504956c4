import CallFlow.Proofs.Engine.Moves
import CallFlow.Proofs.Shared.Attempts

/-! # One record for each attempt

While a snapshot is open, steps are placed in an engine and run, in any order. A step that comes
without a step run gets one on the snapshot, and every attempt gets one record: on the snapshot,
and at the end of the step run that the engine holds. As long as the only step run that the engine
is given is the one that it holds, the attempts that it holds are the ones on record, and after a
commit these are what the store lists.
-/
namespace CallFlow
open Memory

def Write.attemptAt? (stepRun : Int) : Write → Option AttemptRecord
  | insertAttempt a => if a.stepRun = stepRun then some a else none
  | _ => none

namespace Snapshot

def attemptsOf (s : Snapshot) (stepRun : Int) : List AttemptRecord :=
  s.writes.filterMap (·.attemptAt? stepRun)

theorem attemptsOf_stage (s : Snapshot) (w : Write) (stepRun : Int) :
    (s.stage w).attemptsOf stepRun = s.attemptsOf stepRun ++ (w.attemptAt? stepRun).toList := by
  cases h : w.attemptAt? stepRun <;> simp [attemptsOf, stage, h]

theorem mem_attemptsOf {s : Snapshot} {stepRun : Int} {a : AttemptRecord} :
    a ∈ s.attemptsOf stepRun ↔ .insertAttempt a ∈ s.writes ∧ a.stepRun = stepRun := by
  simp only [attemptsOf, List.mem_filterMap]
  constructor
  · rintro ⟨w, hw, ha⟩
    cases w with
    | insertAttempt b =>
      simp only [Write.attemptAt?] at ha
      split at ha <;> cases ha
      exact ⟨hw, ‹_›⟩
    | _ => cases ha
  · rintro ⟨hw, rfl⟩
    exact ⟨_, hw, if_pos rfl⟩

end Snapshot

/-- A step run that was known when an attempt at it was staged stays known. -/
theorem Memory.Backs.attempt_known {m : Memory} {ws : List Write} (h : m.Backs ws)
    {a : AttemptRecord} (ha : .insertAttempt a ∈ ws) : m.knowsStepRun ⟨ws⟩ a.stepRun = true := by
  induction h with
  | nil => cases ha
  | @concat ws w _ backed ih =>
    have hknown : m.knowsStepRun ⟨ws⟩ a.stepRun = true := by
      rcases List.mem_append.mp ha with ha | ha
      · exact ih ha
      · cases List.mem_singleton.mp ha
        cases backed with
        | insertAttempt known => exact known
    simp only [knowsStepRun, Snapshot.hasStepRun, List.any_append, Bool.or_eq_true] at hknown ⊢
    exact hknown.imp_left .inl

/-- A step engine at work on an open snapshot of a store. -/
structure Bench where
  engine : StepEngine
  snapshot : Snapshot
  store : Memory

namespace Bench

def place (x : Bench) (run : Int) (step : Step) (existing : Option StepRun) :
    Except StorageError BoundStep × Bench :=
  match (StepEngine.place (σ := Memory) run step existing x.snapshot).run x.store with
  | (.ok (b, snapshot), store) => (.ok b, ⟨.holding b .ready, snapshot, store⟩)
  | (.error failure, store) => (.error failure, { x with store })

def run (x : Bench) (services : Services) (raw : Option String) (session : Session) :
    (Except EngineError StepResult × Session) × Bench :=
  let (ran, store) := x.engine.run (σ := Memory) services raw session x.snapshot x.store
  ((ran.outcome, ran.session), ⟨ran.engine, ran.snapshot, store⟩)

inductive Use
  | place (run : Int) (step : Step) (existing : Option StepRun)
  | run (services : Services) (raw : Option String) (session : Session)

def step (x : Bench) : Use → Bench
  | .place run step existing => (x.place run step existing).2
  | .run services raw session => (x.run services raw session).2

def after (x : Bench) (uses : List Use) : Bench := uses.foldl step x

def commit (x : Bench) : Except StorageError Unit × Memory :=
  (Backend.commit (σ := Memory) x.snapshot).run x.store

def attemptsOf (x : Bench) (stepRun : Int) : List AttemptRecord :=
  x.store.attemptsOf stepRun ++ x.snapshot.attemptsOf stepRun

theorem attemptsOf_opening (x : Bench) (engine : StepEngine) (s : StepRunRecord) (stepRun : Int) :
    attemptsOf ⟨engine, x.snapshot.stage (.insertStepRun s), x.store.allocate⟩ stepRun =
      x.attemptsOf stepRun := by
  simp only [attemptsOf, Snapshot.attemptsOf_stage, Write.attemptAt?, Option.toList_none,
    List.append_nil]
  rfl

theorem attemptsOf_recording (x : Bench) (engine : StepEngine) {a : AttemptRecord} {stepRun : Int}
    (ha : a.stepRun = stepRun) :
    attemptsOf ⟨engine, x.snapshot.stage (.insertAttempt a), x.store.allocate⟩ stepRun =
      x.attemptsOf stepRun ++ [a] := by
  simp only [attemptsOf, Snapshot.attemptsOf_stage, Write.attemptAt?, ha, if_true,
    Option.toList_some, List.append_assoc]
  rfl

def Use.Own (x : Bench) : Use → Prop
  | .place _ step (some stepRun) => x.engine.current? = some ⟨step, stepRun⟩
  | .place _ _ none | .run .. => True

/-- The engine is never given a step run other than the one that it holds at that time. -/
def OwnUses : Bench → List Use → Prop
  | _, [] => True
  | x, u :: rest => u.Own x ∧ (x.step u).OwnUses rest

end Bench

/-! ## Benches of units of work -/

namespace Work
variable (w : Work Memory)

def bench : Bench := ⟨w.engine.stepEngine, w.snapshot, w.store⟩

/-- A unit of work places steps and runs them on its bench, and its run keeps the session. -/
structure UsesBench : Prop where
  places : ∀ step existing, (placeStep step existing).run w =
    let (answer, x) := w.bench.place w.engine.run.record.id step existing
    (answer.mapError .ofStorage, ⟨x.store, x.snapshot, { w.engine with stepEngine := x.engine }⟩)
  attempts : ∀ ctx raw, ((attempt ctx raw).run w).2 =
    let ((_, session), x) := w.bench.run ctx.services raw w.engine.run.record.session
    ⟨x.store, x.snapshot,
      { w.engine with stepEngine := x.engine, run := w.engine.run.withSession session }⟩

theorem usesBench : w.UsesBench := by
  constructor
  case places =>
    intro step existing
    simp only [placeStep, engine?, setEngine, stage, Effect.run_bind, bench, Bench.place]
    rcases (StepEngine.place (σ := Memory) w.engine.run.record.id step existing w.snapshot).run
      w.store with ⟨failure | ⟨b, snapshot⟩, store⟩ <;> rfl
  case attempts =>
    intro ctx raw
    simp only [attempt, bench, Bench.run]
    split <;> rfl

end Work

/-! ## One use -/

namespace Bench
variable {x y : Bench} {u : Use} {b : BoundStep}

/-- An attempt at a step is on record: on the snapshot, and last in the step run in hand. -/
structure Records (x : Bench) (b : BoundStep) (answer : Except EngineError StepResult) (y : Bench)
    (a : AttemptRecord) : Prop where
  stepRun : a.stepRun = b.stepRun.record.id
  id : a.id = x.store.nextId
  snapshot : y.snapshot = x.snapshot.stage (.insertAttempt a)
  store : y.store = x.store.allocate
  answer :
    (∃ result, answer = .ok result ∧ a.failed = false ∧ a.retryable = false ∧
      y.engine = .holding { b with stepRun := b.stepRun.push a } .complete) ∨
    ∃ e, answer = .error (.step e) ∧ a.failed = true ∧ a.retryable = e.retryable ∧
      y.engine = .holding { b with stepRun := b.stepRun.push a } .failed

/-- A step that comes with a step run is held as it is. One without gets a step run on the snapshot
if its run is known, and nothing changes otherwise. -/
structure Places (x : Bench) (run : Int) (step : Step) : Prop where
  bound : ∀ stepRun, x.place run step (some stepRun) =
    (.ok ⟨step, stepRun⟩, { x with engine := .holding ⟨step, stepRun⟩ .ready })
  opened : x.store.knowsRun x.snapshot run = true →
    ∃ s, s = (step.newStepRun run).toRecord x.store.nextId x.store.clock ∧
      x.place run step none = (.ok ⟨step, s, []⟩,
        ⟨.holding ⟨step, s, []⟩ .ready, x.snapshot.stage (.insertStepRun s), x.store.allocate⟩)
  unknown : x.store.knowsRun x.snapshot run = false →
    x.place run step none = (.error (.runNotFound run), x)

theorem place_unbound (x : Bench) (run : Int) (step : Step) :
    x.place run step none =
      if x.store.knowsRun x.snapshot run then
        let s := (step.newStepRun run).toRecord x.store.nextId x.store.clock
        (.ok ⟨step, s, []⟩,
          ⟨.holding ⟨step, s, []⟩ .ready, x.snapshot.stage (.insertStepRun s), x.store.allocate⟩)
      else (.error (.runNotFound run), x) := by
  simp only [place, StepEngine.place, Effect.run_bind, insertStepRun_run, Step.newStepRun]
  cases x.store.knowsRun x.snapshot run <;> rfl

theorem places (x : Bench) (run : Int) (step : Step) : x.Places run step := by
  constructor
  case bound => exact fun _ => rfl
  case opened => exact fun hknown => ⟨_, rfl, by rw [place_unbound, if_pos hknown]⟩
  case unknown =>
    intro hunknown
    rw [place_unbound, hunknown]
    rfl

theorem run_unready (hready : ∀ b, x.engine ≠ .holding b .ready) (services : Services)
    (raw : Option String) (session : Session) :
    x.run services raw session = ((.error (.stepNotReady x.engine.stateName), session), x) := by
  obtain ⟨engine, snapshot, store⟩ := x
  cases engine with
  | idle => rfl
  | holding b progress =>
    cases progress with
    | ready => exact absurd rfl (hready b)
    | complete | failed => rfl

/-- Running a step that is ready executes it; the attempt is recorded or the step run is unknown. -/
theorem run_ready (hready : x.engine = .holding b .ready) (services : Services)
    (raw : Option String) (session : Session) :
    let e := b.step.behavior.execute services raw session
    let a := b.newAttempt raw e x.store.nextId x.store.clock
    x.run services raw session =
      if x.store.knowsStepRun x.snapshot b.stepRun.record.id then
        (((StepEngine.conclude e.outcome).2, e.session),
          ⟨.holding { b with stepRun := b.stepRun.push a } (StepEngine.conclude e.outcome).1,
            x.snapshot.stage (.insertAttempt a), x.store.allocate⟩)
      else
        ((.error (.ofStorage (.stepRunNotFound b.stepRun.record.id)), e.session), x) := by
  intro e a
  obtain ⟨engine, snapshot, store⟩ := x
  obtain rfl : engine = .holding b .ready := hready
  simp only [run, StepEngine.run, insertAttempt_run, StepEngine.newAttempt]
  cases store.knowsStepRun snapshot b.stepRun.record.id <;> rfl

theorem run_records (hready : x.engine = .holding b .ready)
    (hknown : x.store.knowsStepRun x.snapshot b.stepRun.record.id = true) (services : Services)
    (raw : Option String) (session : Session) :
    ∃ a, x.Records b (x.run services raw session).1.1 (x.run services raw session).2 a := by
  rw [run_ready hready, if_pos hknown]
  generalize b.step.behavior.execute services raw session = e
  obtain ⟨input, outcome, session⟩ := e
  refine ⟨_, rfl, rfl, rfl, rfl, ?_⟩
  cases outcome with
  | ok result => exact .inl ⟨result, rfl, rfl, rfl, rfl⟩
  | error e => exact .inr ⟨e, rfl, rfl, rfl, rfl⟩

/-- The step in hand does not come into it: a step that asks for the same input and does something
else with it is answered alike, and the same is recorded. -/
def LeavesOut (x : Bench) (b : BoundStep) (services : Services) (raw : Option String)
    (session : Session) : Prop :=
  ∀ other : StepBehavior, other.inputType = b.step.behavior.inputType →
    let b' : BoundStep := { b with step := { b.step with behavior := other } }
    let x' : Bench := { x with engine := .holding b' .ready }
    (x'.run services raw session).1 = (x.run services raw session).1 ∧
    (x'.run services raw session).2.snapshot = (x.run services raw session).2.snapshot ∧
    (x'.run services raw session).2.store = (x.run services raw session).2.store

structure Skips (x : Bench) (b : BoundStep) (services : Services) (raw : Option String)
    (session : Session) (cause : BindError) : Prop where
  kept : (x.run services raw session).1.2 = session
  answer : x.store.knowsStepRun x.snapshot b.stepRun.record.id = true →
    (x.run services raw session).1.1 = .error (.step (.ofBindError cause))
  step : x.LeavesOut b services raw session

theorem run_skips {type : InputType} {cause : BindError} {raw : Option String}
    (hready : x.engine = .holding b .ready) (htype : b.step.behavior.inputType = some type)
    (hbind : type.bind raw = .error cause) (services : Services) (session : Session) :
    x.Skips b services raw session cause := by
  have hexecute (behavior : StepBehavior) (h : behavior.inputType = some type) :
      behavior.execute services raw session = ⟨none, .error (.ofBindError cause), session⟩ := by
    simp only [StepBehavior.execute, h, hbind]
  constructor
  case kept =>
    rw [run_ready hready, hexecute _ htype]
    split <;> rfl
  case answer =>
    intro hknown
    rw [run_ready hready, hexecute _ htype, if_pos hknown]
    rfl
  case step =>
    intro other hother b' x'
    rw [run_ready hready, run_ready (x := x') (b := b') rfl, hexecute _ htype,
      hexecute _ (hother.trans htype)]
    by_cases hknown : x.store.knowsStepRun x.snapshot b.stepRun.record.id
    · simp only [x', b', hknown, if_true, BoundStep.newAttempt, true_and]
    · simp only [x', b', hknown, if_false, true_and, Bool.false_eq_true]

/-- Only a step that is ready is run. Its attempt is recorded where its step run is known, and it is
left out where its input cannot be bound. -/
structure Runs (x : Bench) (services : Services) (raw : Option String) (session : Session) :
    Prop where
  unready : (∀ b, x.engine ≠ .holding b .ready) →
    x.run services raw session = ((.error (.stepNotReady x.engine.stateName), session), x)
  recorded : ∀ b, x.engine = .holding b .ready →
    x.store.knowsStepRun x.snapshot b.stepRun.record.id = true →
    ∃ a, x.Records b (x.run services raw session).1.1 (x.run services raw session).2 a
  unbound : ∀ b type cause, x.engine = .holding b .ready →
    b.step.behavior.inputType = some type → type.bind raw = .error cause →
    x.Skips b services raw session cause

theorem runs (x : Bench) (services : Services) (raw : Option String) (session : Session) :
    x.Runs services raw session where
  unready hready := run_unready hready services raw session
  recorded _ hready hknown := run_records hready hknown services raw session
  unbound _ _ _ hready htype hbind := run_skips hready htype hbind services session

inductive Turns (x : Bench) : Use → Bench → Prop
  | still {other : Use} : x.Turns other x
  | bound {run step stepRun} :
      x.Turns (.place run step (some stepRun)) { x with engine := .holding ⟨step, stepRun⟩ .ready }
  | opened {run step s} (id : s.id = x.store.nextId)
      (known : x.store.knowsRun x.snapshot s.run = true) :
      x.Turns (.place run step none)
        ⟨.holding ⟨step, s, []⟩ .ready, x.snapshot.stage (.insertStepRun s), x.store.allocate⟩
  | recorded {services raw session b a progress} (held : x.engine.current? = some b)
      (id : a.id = x.store.nextId) (stepRun : a.stepRun = b.stepRun.record.id)
      (known : x.store.knowsStepRun x.snapshot a.stepRun = true) :
      x.Turns (.run services raw session)
        ⟨.holding { b with stepRun := b.stepRun.push a } progress,
          x.snapshot.stage (.insertAttempt a), x.store.allocate⟩

theorem step_turns (x : Bench) (u : Use) : x.Turns u (x.step u) := by
  cases u with
  | place run step existing =>
    cases existing with
    | some stepRun => exact .bound
    | none =>
      simp only [Bench.step, place_unbound]
      split
      · exact .opened rfl ‹_›
      · exact .still
  | run services raw session =>
    by_cases hready : ∃ b, x.engine = .holding b .ready
    · obtain ⟨b, hready⟩ := hready
      simp only [Bench.step, run_ready hready]
      split
      · exact .recorded (by rw [hready]; rfl) rfl rfl ‹_›
      · exact .still
    · simp only [Bench.step, run_unready fun b hb => hready ⟨b, hb⟩]
      exact .still

/-! ## The bench of a client -/

structure Sound (x : Bench) : Prop where
  linked : x.store.Linked
  ahead : ∀ {id}, x.store.nextId ≤ id → x.store.Fresh id
  client : ∃ receipts, Transaction.Sound x.store ⟨x.snapshot, receipts, .pending⟩

namespace Sound

theorem of_pending {X : SharedStore} (h : X.Sound) {slot : Nat} {t : Transaction}
    (ht : X.pending? slot = some t) (engine : StepEngine) :
    Sound ⟨engine, t.snapshot, X.store⟩ := by
  obtain ⟨hslot, hp⟩ := SharedStore.pending?_eq_some.mp ht
  have hsound := h.transactions hslot
  obtain ⟨snapshot, receipts, fate⟩ := t
  obtain rfl : fate = .pending := hp
  exact ⟨h.linked, h.ahead, receipts, hsound⟩

section
variable (h : x.Sound)
include h

theorem stage {receipt : Receipt} (hgrants : x.store.Grants x.snapshot receipt)
    (engine : StepEngine) :
    Sound ⟨engine, x.snapshot.stage receipt.write, x.store.billed receipt⟩ := by
  have hsame := sameTables_billed x.store receipt
  obtain ⟨receipts, hclient⟩ := h.client
  refine ⟨hsame.linked h.linked, fun hid => hsame.fresh (h.ahead ?_), _,
    hclient.take hgrants h.ahead rfl⟩
  exact Int.le_trans (nextId_le_billed x.store receipt) hid

theorem turns (hturns : x.Turns u y) : y.Sound := by
  cases hturns with
  | still => exact h
  | bound => exact ⟨h.linked, h.ahead, h.client⟩
  | opened id known =>
    have hgrants : x.store.Grants x.snapshot (.stepRun _) := .stepRun id known
    exact h.stage hgrants _
  | recorded _ id _ known =>
    have hgrants : x.store.Grants x.snapshot (.attempt _) := .attempt id known
    exact h.stage hgrants _

theorem known_lt {id : Int} (hknown : x.store.knowsStepRun x.snapshot id = true) :
    id < x.store.nextId := by
  obtain ⟨receipts, hclient⟩ := h.client
  apply Int.lt_of_not_ge
  intro hge
  rcases Bool.or_eq_true_iff.mp hknown with hstaged | hstored
  · obtain ⟨w, hw, hid⟩ := List.any_eq_true.mp hstaged
    cases w with
    | insertStepRun s =>
      obtain rfl : s.id = id := of_decide_eq_true hid
      have hgiven : s.id ∈ Transaction.ids ⟨x.snapshot, receipts, .pending⟩ :=
        hclient.ids_eq ▸ List.mem_filterMap.mpr ⟨_, hw, rfl⟩
      have hlt := hclient.given hgiven
      omega
    | _ => cases hid
  · obtain ⟨s, hs⟩ := Table.exists_get?_of_contains hstored
    cases (h.ahead hge).stepRuns.symm.trans hs

theorem attempt_known {stepRun : Int} {a : AttemptRecord} (ha : a ∈ x.attemptsOf stepRun) :
    x.store.knowsStepRun x.snapshot stepRun = true := by
  rcases List.mem_append.mp ha with hstored | hstaged
  · obtain ⟨⟨key, hget⟩, rfl⟩ := mem_attemptsOf.mp hstored
    obtain ⟨-, s, hs⟩ := h.linked.attempts hget
    exact Bool.or_eq_true_iff.mpr (.inr (Table.contains_of_get? hs))
  · obtain ⟨hw, rfl⟩ := Snapshot.mem_attemptsOf.mp hstaged
    obtain ⟨receipts, hclient⟩ := h.client
    exact (hclient.backed rfl).attempt_known hw

theorem attemptsOf_next : x.attemptsOf x.store.nextId = [] := by
  apply List.eq_nil_iff_forall_not_mem.mpr
  intro a ha
  exact Int.lt_irrefl _ (h.known_lt (h.attempt_known ha))

theorem attempt_lt {stepRun : Int} {a : AttemptRecord} (ha : a ∈ x.attemptsOf stepRun) :
    a.id < x.store.nextId := by
  obtain ⟨receipts, hclient⟩ := h.client
  rcases List.mem_append.mp ha with hstored | hstaged
  · exact h.linked.attempt_lt h.ahead hstored
  · have hmem := hclient.attempt_mem.mp (Snapshot.mem_attemptsOf.mp hstaged).1
    exact hclient.given (List.mem_filterMap.mpr ⟨_, hmem, rfl⟩)

/-- A commit makes the store list the attempts that are on record, by id. -/
theorem attemptsOf_commit {stepRun : Int}
    (hordered : (x.attemptsOf stepRun).Pairwise fun a a' => a.id < a'.id)
    (hcommit : x.commit.1 = .ok ()) : x.commit.2.attemptsOf stepRun = x.attemptsOf stepRun := by
  obtain ⟨receipts, hclient⟩ := h.client
  rcases commit_cases x.snapshot x.store with ⟨hchecked, hrun⟩ | ⟨failure, -, hrun⟩
  · have hadmits := hclient.admits rfl hchecked
    rw [commit, hrun]
    refine ((hadmits.linked h.linked).attemptsOf_ordered stepRun).eq_of_mem_iff hordered fun a => ?_
    rw [hadmits.mem_attemptsOf, attemptsOf, List.mem_append, Snapshot.mem_attemptsOf]
  · rw [commit, hrun] at hcommit
    cases hcommit

end
end Sound

/-- The attempts that the engine holds are those on record, in their order. -/
def Tracks (x : Bench) : Prop :=
  ∀ b, x.engine.current? = some b →
    b.stepRun.attempts = x.attemptsOf b.stepRun.record.id ∧
    b.stepRun.attempts.Pairwise fun a a' => a.id < a'.id

def AsStored (x : Bench) : Prop :=
  ∀ b, x.engine.current? = some b →
    b.stepRun.attempts = x.store.attemptsOf b.stepRun.record.id ∧
    x.snapshot.attemptsOf b.stepRun.record.id = []

theorem AsStored.tracks (h : x.AsStored) (hx : x.Sound) : x.Tracks := by
  intro b hb
  obtain ⟨hstored, hnone⟩ := h b hb
  refine ⟨?_, hstored ▸ hx.linked.attemptsOf_ordered _⟩
  rw [attemptsOf, hnone, List.append_nil, hstored]

def Opened (x : Bench) : Prop :=
  ∀ b, x.engine.current? = some b →
    x.snapshot.hasStepRun b.stepRun.record.id = true ∧
    x.store.attemptsOf b.stepRun.record.id = []

theorem Tracks.turns (htracks : x.Tracks) (h : x.Sound) (hown : u.Own x) (hturns : x.Turns u y) :
    y.Tracks := by
  intro b hb
  cases hturns with
  | still => exact htracks b hb
  | bound =>
    cases hb
    exact htracks _ hown
  | @opened run step s id =>
    cases hb
    exact ⟨(id ▸ h.attemptsOf_next).symm.trans (x.attemptsOf_opening _ s s.id).symm, .nil⟩
  | @recorded services raw session b' a progress held id stepRun known =>
    cases hb
    obtain ⟨hattempts, hordered⟩ := htracks _ held
    have hlast (c : AttemptRecord) (hc : c ∈ b'.stepRun.attempts) : c.id < a.id :=
      id ▸ h.attempt_lt (hattempts ▸ hc)
    constructor
    · exact (congrArg (· ++ [a]) hattempts).trans (x.attemptsOf_recording _ stepRun).symm
    · exact List.pairwise_append.mpr ⟨hordered, List.pairwise_singleton .., fun c hc d hd =>
        List.mem_singleton.mp hd ▸ hlast c hc⟩

theorem Opened.turns (hopened : x.Opened) (h : x.Sound) (hown : u.Own x) (hturns : x.Turns u y) :
    y.Opened := by
  intro b hb
  cases hturns with
  | still => exact hopened b hb
  | bound =>
    cases hb
    exact hopened _ hown
  | @opened run step s id =>
    cases hb
    have hnone := h.attemptsOf_next
    rw [← id] at hnone
    exact ⟨by simp [Snapshot.hasStepRun, Snapshot.stage], (List.append_eq_nil_iff.mp hnone).1⟩
  | recorded held =>
    cases hb
    obtain ⟨hstaged, hnone⟩ := hopened _ held
    refine ⟨?_, hnone⟩
    simp only [StepRun.push, Snapshot.hasStepRun, Snapshot.stage, List.any_append,
      Bool.or_eq_true] at hstaged ⊢
    exact .inl hstaged

/-- What every use of the engine keeps holds after any uses. -/
theorem Sound.keeps {motive : Bench → Prop} {uses : List Use} (h : x.Sound) (hx : motive x)
    (hown : x.OwnUses uses)
    (turns : ∀ {x u y}, motive x → x.Sound → u.Own x → x.Turns u y → motive y) :
    (x.after uses).Sound ∧ motive (x.after uses) := by
  induction uses generalizing x with
  | nil => exact ⟨h, hx⟩
  | cons u rest ih =>
    have hturns := x.step_turns u
    exact ih (h.turns hturns) (turns hx h hown.1 hturns) hown.2

theorem Turns.checked (hturns : x.Turns u y) :
    y.store.checkWrites .empty y.snapshot.writes = .ok () ↔
      x.store.checkWrites .empty x.snapshot.writes = .ok () := by
  cases hturns with
  | still | bound => exact .rfl
  | opened | recorded =>
    simp only [Snapshot.stage, checkWrites_allocate, checkWrites_concat]
    exact and_iff_left rfl

theorem commit_ok_iff (x : Bench) :
    x.commit.1 = .ok () ↔ x.store.checkWrites .empty x.snapshot.writes = .ok () := by
  refine ⟨checked_of_commit, fun hchecked => ?_⟩
  rcases commit_cases x.snapshot x.store with ⟨-, hrun⟩ | ⟨failure, hrefused, -⟩
  · rw [commit, hrun]
  · cases hchecked.symm.trans hrefused

theorem commit_after (x : Bench) (uses : List Use) :
    (x.after uses).commit.1 = .ok () ↔ x.commit.1 = .ok () := by
  rw [commit_ok_iff, commit_ok_iff]
  induction uses generalizing x with
  | nil => exact .rfl
  | cons u rest ih => exact (ih (x.step u)).trans (x.step_turns u).checked

structure Serves (x : Bench) : Prop where
  places : ∀ run step, x.Places run step
  runs : ∀ services raw session, x.Runs services raw session
  commits : ∀ uses, (x.after uses).commit.1 = .ok () ↔ x.commit.1 = .ok ()

/-- After these uses the engine holds the attempts that are on record, which are those that the
store lists after a commit. They were all staged if the engine started idle. -/
structure Lists (x : Bench) (uses : List Use) : Prop where
  tracks : (x.after uses).Tracks
  listed : ∀ b, (x.after uses).engine.current? = some b → (x.after uses).commit.1 = .ok () →
    (x.after uses).commit.2.attemptsOf b.stepRun.record.id = b.stepRun.attempts
  opened : x.engine = .idle → (x.after uses).Opened

theorem Sound.lists {uses : List Use} (h : x.Sound) (hstored : x.AsStored)
    (hown : x.OwnUses uses) : x.Lists uses := by
  obtain ⟨hsound, htracks⟩ := h.keeps (hstored.tracks h) hown Tracks.turns
  constructor
  case tracks => exact htracks
  case listed =>
    intro b hb hcommit
    obtain ⟨hattempts, hordered⟩ := htracks b hb
    rw [hattempts] at hordered ⊢
    exact hsound.attemptsOf_commit hordered hcommit
  case opened =>
    intro hidle
    have hopened : x.Opened := by
      intro b hb
      rw [hidle] at hb
      cases hb
    exact (h.keeps hopened hown Opened.turns).2

/-- A step is opened once, run only when it is ready, and each attempt at it is recorded once, in
hand and on the snapshot of a client. The two agree as long as the engine is given no step run but
its own. Units of work use their engine in this way. -/
theorem one_record_for_each_attempt :
    (∀ x : Bench, x.Serves) ∧
    (∀ {X : SharedStore} {slot : Nat} {t : Transaction}, X.Reachable → X.pending? slot = some t →
      ∀ (engine : StepEngine) (uses : List Use), let x : Bench := ⟨engine, t.snapshot, X.store⟩
      x.AsStored → x.OwnUses uses → x.Lists uses) ∧
    ∀ w : Work Memory, w.UsesBench := by
  refine ⟨fun x => ⟨x.places, x.runs, x.commit_after⟩, ?_, fun w => w.usesBench⟩
  intro X slot t hX ht engine uses x hstored hown
  have hsound : x.Sound := .of_pending hX.sound ht engine
  exact hsound.lists hstored hown

/-! A caller is asked for consent, is not understood and then agrees. -/

def consent : Step :=
  ⟨"consent", "desk", none, none, none,
    Question.behavior ⟨"Do you agree?", none, .yesNo, some "agreed"⟩, .null⟩

def beginning : Bench := ⟨.idle, .empty, Rivals.opened.store⟩

def asked : Bench := beginning.step (.place 1 consent none)

def misheard : Bench := asked.step (.run .empty (some "maybe") .empty)

def consenting : List Use :=
  [.place 1 consent none, .run .empty (some "maybe") .empty, .run .empty (some "1") .empty,
    .place 1 consent (misheard.engine.current?.map (·.stepRun)), .run .empty (some "1") .empty]

theorem one_record_for_each_attempt_consent :
    (∃ s, s.id = 3 ∧ beginning.place 1 consent none = (.ok ⟨consent, s, []⟩, asked)) ∧
    beginning.place 99 consent none = (.error (.runNotFound 99), beginning) ∧
    (∃ a b, asked.Records b (.error (.step (.ofBindError (.invalid "yes or no" "maybe"))))
      misheard a) ∧
    misheard.run .empty (some "1") .empty =
      ((.error (.stepNotReady "step_error"), .empty), misheard) ∧
    ∃ b a a', (beginning.after consenting).engine = .holding b .complete ∧
      b.stepRun.attempts = [a, a'] ∧ a.failed = true ∧ a'.failed = false ∧ a.id < a'.id ∧
      (beginning.after consenting).snapshot.attemptsOf 3 = [a, a'] ∧
      (beginning.after consenting).commit.2.attemptsOf 3 = [a, a'] := by
  obtain ⟨hserves, hlists, -⟩ := one_record_for_each_attempt
  refine ⟨?_, ((hserves beginning).places 99 consent).unknown rfl, ?_, ?_, ?_⟩
  · obtain ⟨s, rfl, hplace⟩ := ((hserves beginning).places 1 consent).opened rfl
    exact ⟨_, rfl, hplace⟩
  · have hbind : InputType.yesNo.bind (some "maybe") =
        .error (.invalid "yes or no" "maybe") := by decide +kernel
    let b : BoundStep := ⟨consent, (consent.newStepRun 1).toRecord 3 "", []⟩
    have hknown : asked.store.knowsStepRun asked.snapshot 3 = true := rfl
    have hruns := (hserves asked).runs .empty (some "maybe") .empty
    obtain ⟨a, ha⟩ := hruns.recorded b rfl hknown
    exact ⟨a, b, (hruns.unbound b _ _ rfl rfl hbind).answer hknown ▸ ha⟩
  · refine ((hserves misheard).runs .empty (some "1") .empty).unready fun b hb => ?_
    have hname : "step_error" = "initialized" := congrArg StepEngine.stateName hb
    exact absurd hname (by decide)
  · have hslot : Rivals.opened.pending? 1 = some ⟨.empty, [], .pending⟩ := rfl
    obtain ⟨htracks, hlisted, hopened⟩ := hlists Rivals.reachable_opened hslot .idle consenting
      (by intro b hb; cases hb) ⟨trivial, trivial, trivial, rfl, trivial, trivial⟩
    obtain ⟨hattempts, hordered⟩ := htracks _ rfl
    obtain ⟨-, hnone⟩ := hopened rfl _ rfl
    refine ⟨_, _, _, rfl, rfl, rfl, rfl, ?_, ?_, hlisted _ rfl ?_⟩
    · exact List.rel_of_pairwise_cons hordered List.mem_cons_self
    · rw [attemptsOf, hnone] at hattempts
      exact hattempts.symm
    · exact ((hserves beginning).commits consenting).mpr rfl

end Bench
end CallFlow
