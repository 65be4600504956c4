import CallFlow.Proofs.Store.Admitted

/-! # Many snapshots of one store

Clients open snapshots of one store, stage writes on them, and commit or abort them, in any order
and each at its own pace. A snapshot is given up once it was committed or aborted, also when the
commit was refused. What a client was answered while it staged is kept as its receipts.
-/
namespace CallFlow

inductive Request
  | insertRun (new : NewRun)
  | updateRun (given : RunRecord)
  | insertStepRun (new : NewStepRun)
  | insertAttempt (new : NewAttempt)
  | insertPosition (new : NewPosition)
  | markBranched (position : Int)

inductive Receipt
  | run (answer : RunRecord)
  /-- The record that was given, the version that was answered, and when. -/
  | version (given : RunRecord) (answer : Int) (clock : String)
  | stepRun (answer : StepRunRecord)
  | attempt (answer : AttemptRecord)
  | position (answer : PositionRecord)
  | mark (position : Int)
deriving DecidableEq

namespace Receipt

def write : Receipt → Write
  | run r => .insertRun r
  | version given answer clock => .updateRun { given with version := answer, updatedAt := clock }
  | stepRun s => .insertStepRun s
  | attempt a => .insertAttempt a
  | position p => .insertPosition p
  | mark id => .markBranched id

def id? : Receipt → Option Int
  | run r => some r.id
  | stepRun s => some s.id
  | attempt a => some a.id
  | position p => some p.id
  | version .. | mark _ => none

def updates (id : Int) : Receipt → Bool
  | version given _ _ => given.id = id
  | _ => false

@[simp] theorem write_id? (r : Receipt) : r.write.id? = r.id? := by
  cases r <;> rfl

@[simp] theorem write_updates (id : Int) (r : Receipt) : r.write.updates id = r.updates id := by
  cases r <;> rfl

end Receipt

def Request.stage (s : Snapshot) : Request → StoreM Memory (Receipt × Snapshot)
  | insertRun new => do
    let (r, s) ← Backend.insertRun new s
    return (.run r, s)
  | updateRun given => do
    let clock := (← get).clock
    let (version, s) ← Backend.updateRun given s
    return (.version given version clock, s)
  | insertStepRun new => do
    let (r, s) ← Backend.insertStepRun new s
    return (.stepRun r, s)
  | insertAttempt new => do
    let (a, s) ← Backend.insertAttempt new s
    return (.attempt a, s)
  | insertPosition new => do
    let (p, s) ← Backend.insertPosition new s
    return (.position p, s)
  | markBranched position => do
    let s ← Backend.markBranched position s
    return (.mark position, s)

inductive Fate
  | pending
  | committed
  | refused
  | aborted
deriving DecidableEq

/-- A snapshot in the hands of a client. -/
structure Transaction where
  snapshot : Snapshot
  receipts : List Receipt
  fate : Fate

namespace Transaction

def ids (t : Transaction) : List Int := t.receipts.filterMap Receipt.id?

def take (t : Transaction) (receipt : Receipt) : Transaction :=
  { t with snapshot := t.snapshot.stage receipt.write, receipts := t.receipts ++ [receipt] }

end Transaction

structure SharedStore where
  store : Memory
  transactions : List Transaction

namespace SharedStore

inductive Action
  | tick (clock : String)
  | start
  | stage (slot : Nat) (request : Request)
  | alterAttempt (slot : Nat) (given : AttemptRecord)
  | commit (slot : Nat)
  | abort (slot : Nat)

def empty : SharedStore := ⟨.empty, []⟩

def pending? (x : SharedStore) (slot : Nat) : Option Transaction :=
  x.transactions[slot]?.filter (·.fate = .pending)

def step (x : SharedStore) : Action → SharedStore
  | .tick clock => { x with store := { x.store with clock } }
  | .start =>
    match (Backend.openSnapshot (σ := Memory)).run x.store with
    | (.ok s, store) => ⟨store, x.transactions ++ [⟨s, [], .pending⟩]⟩
    | (.error _, store) => { x with store }
  | .stage slot request =>
    match x.pending? slot with
    | none => x
    | some t =>
      match (request.stage t.snapshot).run x.store with
      | (.ok (receipt, snapshot), store) =>
        ⟨store, x.transactions.set slot { t with snapshot, receipts := t.receipts ++ [receipt] }⟩
      | (.error _, store) => { x with store }
  | .alterAttempt slot given =>
    match x.pending? slot with
    | none => x
    | some t =>
      match (Backend.updateAttempt (σ := Memory) given t.snapshot).run x.store with
      | (.ok snapshot, store) => ⟨store, x.transactions.set slot { t with snapshot }⟩
      | (.error _, store) => { x with store }
  | .commit slot =>
    match x.pending? slot with
    | none => x
    | some t =>
      match (Backend.commit (σ := Memory) t.snapshot).run x.store with
      | (.ok (), store) => ⟨store, x.transactions.set slot { t with fate := .committed }⟩
      | (.error _, store) => ⟨store, x.transactions.set slot { t with fate := .refused }⟩
  | .abort slot =>
    match x.pending? slot with
    | none => x
    | some t =>
      ⟨((Backend.abort (σ := Memory) t.snapshot).run x.store).2,
        x.transactions.set slot { t with fate := .aborted }⟩

def after (x : SharedStore) (actions : List Action) : SharedStore := actions.foldl step x

def Reachable (x : SharedStore) : Prop := ∃ actions, x = empty.after actions

theorem Reachable.after {x : SharedStore} (h : x.Reachable) (actions : List Action) :
    (x.after actions).Reachable := by
  obtain ⟨before, rfl⟩ := h
  exact ⟨before ++ actions, List.foldl_append.symm⟩

/-- What holds of a store and is kept by every action holds after any actions. -/
theorem after_induction {motive : SharedStore → Prop} {x : SharedStore} (h : motive x)
    (step : ∀ y a, motive y → motive (y.step a)) (actions : List Action) :
    motive (x.after actions) := by
  induction actions generalizing x with
  | nil => exact h
  | cons a rest ih => exact ih (step x a h)

theorem pending?_eq_some {x : SharedStore} {slot : Nat} {t : Transaction} :
    x.pending? slot = some t ↔ x.transactions[slot]? = some t ∧ t.fate = .pending := by
  simp [pending?, Option.filter_eq_some_iff]

end SharedStore

/-! ## What a staging call does -/

namespace Memory

def billed (m : Memory) (receipt : Receipt) : Memory :=
  match receipt.id? with
  | some _ => m.allocate
  | none => m

inductive Grants (m : Memory) (s : Snapshot) : Receipt → Prop
  | run {r} (id : r.id = m.nextId) (version : r.version = 0) : m.Grants s (.run r)
  | version {given} (known : m.version? s given.id = some given.version) :
      m.Grants s (.version given (given.version + 1) m.clock)
  | stepRun {r} (id : r.id = m.nextId) (known : m.knowsRun s r.run = true) : m.Grants s (.stepRun r)
  | attempt {a} (id : a.id = m.nextId) (known : m.knowsStepRun s a.stepRun = true) :
      m.Grants s (.attempt a)
  | position {p} (id : p.id = m.nextId) (known : m.knowsStepRun s p.stepRun = true)
      (order : s.hasOrder p.run p.order = false) (unmarked : p.branchedOnError = false) :
      m.Grants s (.position p)
  | mark {id} (known : m.knowsPosition s id = true) : m.Grants s (.mark id)

theorem sameTables_billed (m : Memory) (receipt : Receipt) : SameTables m (m.billed receipt) := by
  unfold billed
  split <;> exact ⟨rfl, rfl, rfl, rfl⟩

theorem nextId_le_billed (m : Memory) (receipt : Receipt) : m.nextId ≤ (m.billed receipt).nextId := by
  unfold billed
  split
  · exact Int.le_add_one (Int.le_refl _)
  · exact Int.le_refl _

variable {m : Memory} {s : Snapshot} {receipt : Receipt}

theorem Grants.id_eq (h : m.Grants s receipt) {id : Int} (hid : receipt.id? = some id) :
    id = m.nextId ∧ (m.billed receipt).nextId = m.nextId + 1 := by
  cases h with
  | run hr | stepRun hr | attempt hr | position hr =>
    cases hid
    exact ⟨hr, rfl⟩
  | version | mark => cases hid

end Memory

/-- A staging call is refused and changes nothing, or it stages the write of its receipt. -/
theorem Request.stage_cases (q : Request) (s : Snapshot) (m : Memory) :
    (∃ failure, (q.stage s).run m = (.error failure, m)) ∨
      ∃ receipt, m.Grants s receipt ∧
        (q.stage s).run m = (.ok (receipt, s.stage receipt.write), m.billed receipt) := by
  cases q with
  | insertRun new => exact .inr ⟨.run _, .run rfl rfl, rfl⟩
  | updateRun given =>
    have hcall : (Backend.updateRun (σ := Memory) given s).run m = m.updateRun given s := rfl
    simp only [stage, Effect.run_bind, Effect.run_get, hcall, Memory.updateRun]
    cases hv : m.version? s given.id with
    | none => exact .inl ⟨_, rfl⟩
    | some current =>
      by_cases heq : current = given.version
      · subst heq
        simp only [if_pos]
        exact .inr ⟨_, .version hv, rfl⟩
      · simp only [if_neg heq]
        exact .inl ⟨_, rfl⟩
  | insertStepRun new =>
    have hcall : (Backend.insertStepRun (σ := Memory) new s).run m = m.insertStepRun new s := rfl
    simp only [stage, Effect.run_bind, hcall, Memory.insertStepRun]
    cases hknown : m.knowsRun s new.run with
    | false => exact .inl ⟨_, rfl⟩
    | true => exact .inr ⟨.stepRun _, .stepRun rfl hknown, rfl⟩
  | insertAttempt new =>
    have hcall : (Backend.insertAttempt (σ := Memory) new s).run m = m.insertAttempt new s := rfl
    simp only [stage, Effect.run_bind, hcall, Memory.insertAttempt]
    cases hknown : m.knowsStepRun s new.stepRun with
    | false => exact .inl ⟨_, rfl⟩
    | true => exact .inr ⟨.attempt _, .attempt rfl hknown, rfl⟩
  | insertPosition new =>
    have hcall : (Backend.insertPosition (σ := Memory) new s).run m = m.insertPosition new s := rfl
    simp only [stage, Effect.run_bind, hcall, Memory.insertPosition]
    cases hknown : m.knowsStepRun s new.stepRun with
    | false => exact .inl ⟨_, rfl⟩
    | true =>
      cases horder : s.hasOrder new.run new.order with
      | true => exact .inl ⟨_, rfl⟩
      | false =>
        cases htaken : m.hasOrder new.run new.order with
        | true => exact .inl ⟨_, rfl⟩
        | false => exact .inr ⟨.position _, .position rfl hknown horder rfl, rfl⟩
  | markBranched id =>
    have hcall : (Backend.markBranched (σ := Memory) id s).run m = m.markBranched id s := rfl
    simp only [stage, Effect.run_bind, hcall, Memory.markBranched]
    cases hknown : m.knowsPosition s id with
    | false => exact .inl ⟨_, rfl⟩
    | true => exact .inr ⟨.mark id, .mark hknown, rfl⟩

/-! ## What an action does -/

namespace SharedStore

inductive Moves (x : SharedStore) : SharedStore → Prop
  | still : x.Moves x
  | tick (clock : String) : x.Moves { x with store := { x.store with clock } }
  | start : x.Moves { x with transactions := x.transactions ++ [⟨.empty, [], .pending⟩] }
  | stage {slot : Nat} {t : Transaction} {receipt : Receipt} (pending : x.pending? slot = some t)
      (granted : x.store.Grants t.snapshot receipt) :
      x.Moves ⟨x.store.billed receipt, x.transactions.set slot (t.take receipt)⟩
  | commit {slot : Nat} {t : Transaction} (pending : x.pending? slot = some t)
      (checked : x.store.checkWrites .empty t.snapshot.writes = .ok ()) :
      x.Moves ⟨t.snapshot.writes.foldl Memory.applyWrite x.store,
        x.transactions.set slot { t with fate := .committed }⟩
  | close {slot : Nat} {t : Transaction} {fate : Fate} (pending : x.pending? slot = some t)
      (closed : fate ≠ .pending) (undone : fate ≠ .committed) :
      x.Moves { x with transactions := x.transactions.set slot { t with fate } }

end SharedStore

/-- A commit applies the writes that it has checked, or it is refused and changes nothing. -/
theorem Memory.commit_cases (s : Snapshot) (m : Memory) :
    m.checkWrites .empty s.writes = .ok () ∧
        (Backend.commit (σ := Memory) s).run m = (.ok (), s.writes.foldl applyWrite m) ∨
      ∃ failure, m.checkWrites .empty s.writes = .error failure ∧
        (Backend.commit (σ := Memory) s).run m = (.error failure, m) := by
  have hcall : (Backend.commit (σ := Memory) s).run m = m.commit s := rfl
  rw [hcall, Memory.commit]
  cases m.checkWrites .empty s.writes with
  | ok u => exact .inl ⟨rfl, rfl⟩
  | error failure => exact .inr ⟨failure, rfl, rfl⟩

theorem Memory.checked_of_commit {s : Snapshot} {m : Memory}
    (h : ((Backend.commit (σ := Memory) s).run m).1 = .ok ()) :
    m.checkWrites .empty s.writes = .ok () := by
  rcases commit_cases s m with ⟨hchecked, -⟩ | ⟨failure, -, hrun⟩
  · exact hchecked
  · rw [hrun] at h
    cases h

namespace SharedStore

theorem step_moves (x : SharedStore) (a : Action) : x.Moves (x.step a) := by
  cases a with
  | tick clock => exact .tick clock
  | start => exact .start
  | stage slot request =>
    simp only [step]
    cases ht : x.pending? slot with
    | none => exact .still
    | some t =>
      rcases request.stage_cases t.snapshot x.store with ⟨failure, hrun⟩ | ⟨receipt, hgranted, hrun⟩
      · simp only [hrun]
        exact .still
      · simp only [hrun]
        exact .stage ht hgranted
  | alterAttempt slot given =>
    simp only [step]
    cases x.pending? slot <;> exact .still
  | commit slot =>
    simp only [step]
    cases ht : x.pending? slot with
    | none => exact .still
    | some t =>
      rcases Memory.commit_cases t.snapshot x.store with ⟨hchecked, hrun⟩ | ⟨failure, -, hrun⟩
      · simp only [hrun]
        exact .commit ht hchecked
      · simp only [hrun]
        exact .close ht (by decide) (by decide)
  | abort slot =>
    simp only [step]
    cases ht : x.pending? slot with
    | none => exact .still
    | some t => exact .close ht (by decide) (by decide)

end SharedStore

/-! ## Two rivals -/

namespace Rivals
open SharedStore

def caller : RunRecord := ⟨1, "tag", "uninitialized", "desk", .empty, 0, "", ""⟩

def opened : SharedStore := empty.after [
  .start, .stage 0 (.insertRun ⟨"tag", "uninitialized", "desk"⟩),
  .stage 0 (.insertStepRun ⟨1, "greeting", "desk", "message", .null⟩), .commit 0, .start, .start]

/-- Both rivals update the run and put it at its first position. The first one also records an
attempt and marks its position. -/
def staged : SharedStore := opened.after [
  .stage 1 (.updateRun caller), .stage 1 (.insertAttempt ⟨2, none, .null, false, false⟩),
  .stage 1 (.insertPosition ⟨1, 2, 1⟩), .stage 1 (.markBranched 4),
  .stage 2 (.updateRun caller), .stage 2 (.insertPosition ⟨1, 2, 1⟩)]

def settled : SharedStore := staged.step (.commit 1)

def closed : SharedStore := settled.step (.commit 2)

theorem reachable_opened : opened.Reachable := ⟨_, rfl⟩

theorem reachable_staged : staged.Reachable := reachable_opened.after _

theorem reachable_settled : settled.Reachable := reachable_staged.after [.commit 1]

theorem reachable_closed : closed.Reachable := reachable_settled.after [.commit 2]

end Rivals
end CallFlow
