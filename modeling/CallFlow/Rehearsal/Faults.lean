import CallFlow.Store.Memory

/-! # Faulty stores

A faulty store works on a store in memory and breaks one promise, so that one can see which
checks notice. Besides that, the nth call of an operation can be made to fail.
-/
namespace CallFlow

inductive StoreOp
  | openSnapshot
  | commit
  | abort
  | insertRun
  | updateRun
  | insertStepRun
  | insertAttempt
  | updateAttempt
  | insertPosition
  | markBranched
  | run
  | latestPosition
  | positions
  | stepRun
  | findStepRun
  | attempts
deriving DecidableEq, Repr

def StoreOp.named : List (String × StoreOp) := [
  ("begin_snapshot", openSnapshot), ("commit_snapshot", commit), ("abort_snapshot", abort),
  ("insert_workflow_run", insertRun), ("update_workflow_run", updateRun),
  ("insert_step_run", insertStepRun), ("insert_step_state", insertAttempt),
  ("update_step_state", updateAttempt), ("insert_workflow_step_run", insertPosition),
  ("mark_branched_on_error", markBranched), ("get_workflow_run", run),
  ("latest_workflow_step_run", latestPosition), ("list_workflow_step_runs", positions),
  ("get_step_run", stepRun), ("find_step_run", findStepRun), ("list_step_states", attempts)]

inductive Fault
  | none
  | dropOnCommit
  | commitOnAbort
  | ignoreCommitConflict
  | sameId
  | versionSkips
  | ignoreConflict
  | wrongConflict
  | dirtyUpdate
  | acceptMissing
  | notFoundAsBackend
  | blankForMissing
  | mutableAttempts
  | acceptDuplicateOrder
  | markNoop
  | versionOff
  | lostState
  | lostBranch
  | lostTag
  | lostSession
  | dirtySession
  | firstAsLatest
  | noLatest
  | phantomLatest
  | premarked
  | reversePositions
  | noPositions
  | unscopedPositions
  | phantomHistory
  | oldestVisit
  | anyBranch
  | neverFound
  | phantomStepRun
  | reverseAttempts
  | noAttempts
deriving DecidableEq, Repr

def Fault.named : List (String × Fault) := [
  ("none", none), ("drop_on_commit", dropOnCommit), ("commit_on_abort", commitOnAbort),
  ("ignore_commit_conflict", ignoreCommitConflict), ("same_id", sameId),
  ("version_skips", versionSkips), ("ignore_conflict", ignoreConflict),
  ("wrong_conflict", wrongConflict), ("dirty_update", dirtyUpdate),
  ("accept_missing", acceptMissing), ("not_found_as_backend", notFoundAsBackend),
  ("blank_for_missing", blankForMissing), ("mutable_states", mutableAttempts),
  ("accept_duplicate_order", acceptDuplicateOrder), ("mark_noop", markNoop),
  ("version_off", versionOff), ("lost_state", lostState), ("lost_branch", lostBranch),
  ("lost_tag", lostTag), ("lost_session", lostSession), ("dirty_session", dirtySession),
  ("first_as_latest", firstAsLatest), ("no_latest", noLatest), ("phantom_latest", phantomLatest),
  ("premarked", premarked), ("reverse_positions", reversePositions),
  ("no_positions", noPositions), ("unscoped_positions", unscopedPositions),
  ("phantom_history", phantomHistory), ("oldest_visit", oldestVisit), ("any_branch", anyBranch),
  ("never_found", neverFound), ("phantom_step_run", phantomStepRun),
  ("reverse_states", reverseAttempts), ("no_states", noAttempts)]

/-- A call that is to fail: which one, counted from now. -/
structure PendingFailure where
  op : StoreOp
  nth : Nat
deriving DecidableEq, Repr

structure FaultyStore where
  memory : Memory
  fault : Fault
  pending : List PendingFailure
  /-- The record of the last update, whether it was accepted or not. -/
  lastUpdate : Option RunRecord

namespace FaultyStore

def ofFault (fault : Fault) : FaultyStore := ⟨.empty, fault, [], Option.none⟩

def failing (s : FaultyStore) (op : StoreOp) (nth : Nat) : FaultyStore :=
  { s with pending := s.pending ++ [⟨op, max nth 1⟩] }

/-- Counts a call; true when it is one that fails. -/
def count (op : StoreOp) : List PendingFailure → Bool × List PendingFailure
  | [] => (false, [])
  | p :: rest =>
    let (fails, rest) := count op rest
    if p.op ≠ op then (fails, p :: rest)
    else if p.nth ≤ 1 then (true, rest)
    else (fails, { p with nth := p.nth - 1 } :: rest)

variable {α : Type}

/-- Makes a call of an operation, which does nothing when it is one that fails. -/
def call (op : StoreOp) (x : StoreM FaultyStore α) : StoreM FaultyStore α := ⟨fun s =>
  let (fails, pending) := count op s.pending
  let s := { s with pending }
  if fails then (.error (.backend "injected"), s) else x.run s⟩

def forward (x : Memory → Except StorageError α × Memory) : StoreM FaultyStore α := ⟨fun s =>
  let (r, memory) := x s.memory
  (r, { s with memory })⟩

def fault? : StoreM FaultyStore Fault := .ask fun s => .ok s.fault

/-! ## Broken promises -/

def blankRun (id version : Int) : RunRecord := ⟨id, "", "", "", .empty, version, "", ""⟩

def blankStepRun (id : Int) : StepRunRecord := ⟨id, 0, "", "", "", .null, ""⟩

def phantomPosition (run : Int) : PositionRecord := ⟨0, run, 0, 1, false, ""⟩

/-- How a staging operation answers when the record it refers to does not exist. -/
def onMissing (fault : Fault) (accepted : α) (e : StorageError) : Except StorageError α :=
  if e.isNotFound then
    match fault with
    | .acceptMissing => .ok accepted
    | .notFoundAsBackend => .error (.backend "no row")
    | _ => .error e
  else .error e

def recovering (x : StoreM FaultyStore α) (handle : Fault → StorageError → Except StorageError α) :
    StoreM FaultyStore α := do
  match ← Effect.outcome x with
  | .ok a => return a
  | .error e => Effect.ofExcept (handle (← fault?) e)

def commit (snapshot : Snapshot) : StoreM FaultyStore Unit := do
  if (← fault?) = .dropOnCommit then return ()
  else recovering (forward (Memory.commit snapshot)) fun fault e =>
    match fault, e with
    | .ignoreCommitConflict, .concurrentConflict .. => .ok ()
    | _, e => .error e

def abort (snapshot : Snapshot) : StoreM FaultyStore Unit := do
  if (← fault?) = .commitOnAbort then forward (Memory.commit snapshot) else return ()

def insertRun (new : NewRun) (snapshot : Snapshot) : StoreM FaultyStore (RunRecord × Snapshot) := do
  let (r, snapshot) ← forward (Memory.insertRun new snapshot)
  return (if (← fault?) = .sameId then { r with id := 1 } else r, snapshot)

def updateRun (r : RunRecord) (snapshot : Snapshot) : StoreM FaultyStore (Int × Snapshot) := do
  modify fun s => { s with lastUpdate := some r }
  let (version, snapshot) ← recovering (forward (Memory.updateRun r snapshot)) fun fault e =>
    match fault, e with
    | .ignoreConflict, .concurrentConflict .. => .ok (r.version + 1, snapshot)
    | .wrongConflict, .concurrentConflict run expected =>
      .error (.concurrentConflict run (expected + 1))
    | fault, e => onMissing fault (1, snapshot) e
  return (if (← fault?) = .versionSkips then version + 1 else version, snapshot)

def insertStepRun (new : NewStepRun) (snapshot : Snapshot) :
    StoreM FaultyStore (StepRunRecord × Snapshot) :=
  recovering (forward (Memory.insertStepRun new snapshot)) fun fault e =>
    onMissing fault
      (⟨0, new.run, new.name, new.branch, new.stepType, new.snapshot, ""⟩, snapshot) e

def insertAttempt (new : NewAttempt) (snapshot : Snapshot) :
    StoreM FaultyStore (AttemptRecord × Snapshot) :=
  recovering (forward (Memory.insertAttempt new snapshot)) fun fault e =>
    onMissing fault
      (⟨0, new.stepRun, new.input, new.result, new.failed, new.retryable, ""⟩, snapshot) e

def insertPosition (new : NewPosition) (snapshot : Snapshot) :
    StoreM FaultyStore (PositionRecord × Snapshot) :=
  let accepted : PositionRecord × Snapshot :=
    (⟨0, new.run, new.stepRun, new.order, false, ""⟩, snapshot)
  recovering (forward (Memory.insertPosition new snapshot)) fun fault e =>
    match fault, e with
    | .acceptDuplicateOrder, .duplicateOrder .. => .ok accepted
    | fault, e => onMissing fault accepted e

def markBranched (id : Int) (snapshot : Snapshot) : StoreM FaultyStore Snapshot := do
  if (← fault?) = .markNoop then return snapshot
  else recovering (forward (Memory.markBranched id snapshot)) fun fault e =>
    onMissing fault snapshot e

def updateAttempt (a : AttemptRecord) (snapshot : Snapshot) : StoreM FaultyStore Snapshot := do
  if (← fault?) = .mutableAttempts then return snapshot else throw (Memory.updateAttempt a)

/-- A run as a store that has lost a part of it reads it. -/
def alteredRun (fault : Fault) (r : RunRecord) : RunRecord :=
  match fault with
  | .versionOff => { r with version := r.version + 1 }
  | .lostState => { r with state := "lost" }
  | .lostBranch => { r with branch := "lost" }
  | .lostTag => { r with configTag := "lost" }
  | .lostSession => { r with session := .empty }
  | .dirtySession => { r with session := r.session.insert "x" (.int 1) }
  | _ => r

def onAbsent (blank : α) (fault : Fault) (e : StorageError) : Except StorageError α :=
  match fault with
  | .notFoundAsBackend => .error (.backend "no row")
  | .blankForMissing => .ok blank
  | _ => .error e

def run (id : Int) : StoreM FaultyStore RunRecord := do
  let s ← get
  match s.fault, s.lastUpdate with
  | .dirtyUpdate, some r => return { r with version := r.version + 1 }
  | fault, _ =>
    let r ← recovering (forward fun m => (m.run id, m)) (onAbsent (blankRun id 0))
    return alteredRun fault r

def latestPosition (run : Int) : StoreM FaultyStore (Option PositionRecord) := do
  let s ← get
  let latest := s.memory.latestPosition run
  return match s.fault with
    | .firstAsLatest => (s.memory.positionsOf run).head?
    | .noLatest => Option.none
    | .phantomLatest => latest.or (some (phantomPosition run))
    | .premarked => latest.map fun p => { p with branchedOnError := true }
    | _ => latest

def positions (run : Int) : StoreM FaultyStore (List PositionRecord) := do
  let s ← get
  let listed := s.memory.positionsOf run
  return match s.fault with
    | .reversePositions => listed.reverse
    | .noPositions => []
    | .unscopedPositions =>
      (List.range 20).flatMap fun i => s.memory.positionsOf (Int.ofNat (i + 1))
    | .phantomHistory => if listed.isEmpty then [phantomPosition run] else listed
    | _ => listed

def stepRun (id : Int) : StoreM FaultyStore StepRunRecord := do
  if (← fault?) = .phantomHistory && id = 0 then return blankStepRun 0
  else recovering (forward fun m => (m.stepRun id, m)) (onAbsent (blankStepRun id))

def findStepRun (run : Int) (branch name : String) : StoreM FaultyStore (Option StepRunRecord) := do
  let s ← get
  let found := s.memory.findStepRun run branch name
  let visits := s.memory.stepRuns.values.filter fun r => r.run = run && r.name = name
  return match s.fault with
    | .oldestVisit => visits.find? (·.branch = branch)
    | .anyBranch => visits.head?
    | .neverFound => Option.none
    | .phantomStepRun => found.or (some (blankStepRun 0))
    | _ => found

def attempts (stepRun : Int) : StoreM FaultyStore (List AttemptRecord) := do
  let s ← get
  let listed := s.memory.attemptsOf stepRun
  return match s.fault with
    | .reverseAttempts => listed.reverse
    | .noAttempts => []
    | _ => listed

instance : Backend FaultyStore where
  Snapshot := Snapshot
  openSnapshot := call .openSnapshot (pure .empty)
  commit snapshot := call .commit (commit snapshot)
  abort snapshot := call .abort (abort snapshot)
  insertRun new snapshot := call .insertRun (insertRun new snapshot)
  updateRun r snapshot := call .updateRun (updateRun r snapshot)
  insertStepRun new snapshot := call .insertStepRun (insertStepRun new snapshot)
  insertAttempt new snapshot := call .insertAttempt (insertAttempt new snapshot)
  updateAttempt a snapshot := call .updateAttempt (updateAttempt a snapshot)
  insertPosition new snapshot := call .insertPosition (insertPosition new snapshot)
  markBranched id snapshot := call .markBranched (markBranched id snapshot)
  run id := call .run (run id)
  latestPosition id := call .latestPosition (latestPosition id)
  positions id := call .positions (positions id)
  stepRun id := call .stepRun (stepRun id)
  findStepRun id branch name := call .findStepRun (findStepRun id branch name)
  attempts id := call .attempts (attempts id)

end FaultyStore
end CallFlow
