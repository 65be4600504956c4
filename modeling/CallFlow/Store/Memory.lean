import CallFlow.Table
import CallFlow.Store.Backend
import CallFlow.Store.Snapshot

/-! # The store in memory

Four tables by id, one counter for all ids, and a clock that the host sets. A commit first
checks every write against the tables and the writes before it, and only then applies them,
so that a refused commit changes nothing.
-/
namespace CallFlow

structure Memory where
  runs : Table Int RunRecord
  stepRuns : Table Int StepRunRecord
  attempts : Table Int AttemptRecord
  positions : Table Int PositionRecord
  nextId : Int
  clock : String
deriving DecidableEq

namespace Memory

def empty : Memory := ⟨.empty, .empty, .empty, .empty, 1, ""⟩

def hasOrder (m : Memory) (run order : Int) : Bool :=
  m.positions.values.any fun p => p.run = run && p.order = order

/-- The version of a run as a snapshot sees it: its own last write first. -/
def version? (m : Memory) (s : Snapshot) (id : Int) : Option Int :=
  (s.version? id).or ((m.runs.get? id).map (·.version))

def knowsRun (m : Memory) (s : Snapshot) (id : Int) : Bool :=
  (s.version? id).isSome || m.runs.contains id

def knowsStepRun (m : Memory) (s : Snapshot) (id : Int) : Bool :=
  s.hasStepRun id || m.stepRuns.contains id

def knowsPosition (m : Memory) (s : Snapshot) (id : Int) : Bool :=
  s.hasPosition id || m.positions.contains id

def allocate (m : Memory) : Memory := { m with nextId := m.nextId + 1 }

/-! ## Committing -/

/-- Checks one write against the tables and the writes staged before it. -/
def checkWrite (m : Memory) (before : Snapshot) : Write → Except StorageError Unit
  | .updateRun r =>
    match m.version? before r.id with
    | none => .error (.runNotFound r.id)
    | some current =>
      if current + 1 = r.version then .ok () else .error (.concurrentConflict r.id (r.version - 1))
  | .insertPosition p =>
    if m.hasOrder p.run p.order then .error (.duplicateOrder p.run p.order) else .ok ()
  | .markBranched id => if m.knowsPosition before id then .ok () else .error (.positionNotFound id)
  | .insertRun _ | .insertStepRun _ | .insertAttempt _ => .ok ()

def checkWrites (m : Memory) : Snapshot → List Write → Except StorageError Unit
  | _, [] => .ok ()
  | before, w :: rest =>
    match m.checkWrite before w with
    | .ok () => m.checkWrites (before.stage w) rest
    | .error e => .error e

def applyWrite (m : Memory) : Write → Memory
  | .insertRun r | .updateRun r => { m with runs := m.runs.insert r.id r }
  | .insertStepRun s => { m with stepRuns := m.stepRuns.insert s.id s }
  | .insertAttempt a => { m with attempts := m.attempts.insert a.id a }
  | .insertPosition p => { m with positions := m.positions.insert p.id p }
  | .markBranched id =>
    match m.positions.get? id with
    | some p => { m with positions := m.positions.insert id { p with branchedOnError := true } }
    | none => m

def commit (s : Snapshot) (m : Memory) : Except StorageError Unit × Memory :=
  match m.checkWrites .empty s.writes with
  | .ok () => (.ok (), s.writes.foldl applyWrite m)
  | .error e => (.error e, m)

/-! ## Staging -/

def insertRun (new : NewRun) (s : Snapshot) (m : Memory) :
    Except StorageError (RunRecord × Snapshot) × Memory :=
  let r : RunRecord := {
    id := m.nextId, configTag := new.configTag, state := new.state, branch := new.branch
    session := .empty, version := 0, createdAt := m.clock, updatedAt := m.clock }
  (.ok (r, s.stage (.insertRun r)), m.allocate)

def updateRun (r : RunRecord) (s : Snapshot) (m : Memory) :
    Except StorageError (Int × Snapshot) × Memory :=
  match m.version? s r.id with
  | none => (.error (.runNotFound r.id), m)
  | some current =>
    if current = r.version then
      let staged := { r with version := current + 1, updatedAt := m.clock }
      (.ok (staged.version, s.stage (.updateRun staged)), m)
    else (.error (.concurrentConflict r.id r.version), m)

def insertStepRun (new : NewStepRun) (s : Snapshot) (m : Memory) :
    Except StorageError (StepRunRecord × Snapshot) × Memory :=
  if m.knowsRun s new.run then
    let r : StepRunRecord := {
      id := m.nextId, run := new.run, name := new.name, branch := new.branch
      stepType := new.stepType, snapshot := new.snapshot, createdAt := m.clock }
    (.ok (r, s.stage (.insertStepRun r)), m.allocate)
  else (.error (.runNotFound new.run), m)

def insertAttempt (new : NewAttempt) (s : Snapshot) (m : Memory) :
    Except StorageError (AttemptRecord × Snapshot) × Memory :=
  if m.knowsStepRun s new.stepRun then
    let r : AttemptRecord := {
      id := m.nextId, stepRun := new.stepRun, input := new.input, result := new.result
      failed := new.failed, retryable := new.retryable, createdAt := m.clock }
    (.ok (r, s.stage (.insertAttempt r)), m.allocate)
  else (.error (.stepRunNotFound new.stepRun), m)

def insertPosition (new : NewPosition) (s : Snapshot) (m : Memory) :
    Except StorageError (PositionRecord × Snapshot) × Memory :=
  if !m.knowsStepRun s new.stepRun then (.error (.stepRunNotFound new.stepRun), m)
  else if s.hasOrder new.run new.order || m.hasOrder new.run new.order then
    (.error (.duplicateOrder new.run new.order), m)
  else
    let p : PositionRecord := {
      id := m.nextId, run := new.run, stepRun := new.stepRun, order := new.order
      branchedOnError := false, createdAt := m.clock }
    (.ok (p, s.stage (.insertPosition p)), m.allocate)

def markBranched (id : Int) (s : Snapshot) (m : Memory) :
    Except StorageError Snapshot × Memory :=
  if m.knowsPosition s id then (.ok (s.stage (.markBranched id)), m)
  else (.error (.positionNotFound id), m)

def updateAttempt (a : AttemptRecord) : StorageError := .immutable "step state" a.id

/-! ## Queries -/

def run (m : Memory) (id : Int) : Except StorageError RunRecord :=
  match m.runs.get? id with
  | some r => .ok r
  | none => .error (.runNotFound id)

def stepRun (m : Memory) (id : Int) : Except StorageError StepRunRecord :=
  match m.stepRuns.get? id with
  | some r => .ok r
  | none => .error (.stepRunNotFound id)

/-- Puts a position before the first of higher or equal order. -/
def placeByOrder (p : PositionRecord) : List PositionRecord → List PositionRecord
  | [] => [p]
  | q :: rest => if p.order ≤ q.order then p :: q :: rest else q :: placeByOrder p rest

/-- The positions of a run by order, those of equal order by id. -/
def positionsOf (m : Memory) (run : Int) : List PositionRecord :=
  (m.positions.values.filter (·.run = run)).foldr placeByOrder []

def latestPosition (m : Memory) (run : Int) : Option PositionRecord :=
  (m.positionsOf run).getLast?

/-- The step run with the highest id among those of a run on a branch with a name. -/
def findStepRun (m : Memory) (run : Int) (branch name : String) : Option StepRunRecord :=
  (m.stepRuns.values.filter fun s => s.run = run && s.branch = branch && s.name = name).getLast?

def attemptsOf (m : Memory) (stepRun : Int) : List AttemptRecord :=
  m.attempts.values.filter (·.stepRun = stepRun)

instance : Backend Memory where
  Snapshot := Snapshot
  openSnapshot := pure .empty
  commit s := ⟨commit s⟩
  abort _ := pure ()
  insertRun new s := ⟨insertRun new s⟩
  updateRun r s := ⟨updateRun r s⟩
  insertStepRun new s := ⟨insertStepRun new s⟩
  insertAttempt new s := ⟨insertAttempt new s⟩
  updateAttempt a _ := throw (updateAttempt a)
  insertPosition new s := ⟨insertPosition new s⟩
  markBranched id s := ⟨markBranched id s⟩
  run id := .ask (·.run id)
  latestPosition run := .ask fun m => .ok (m.latestPosition run)
  positions run := .ask fun m => .ok (m.positionsOf run)
  stepRun id := .ask (·.stepRun id)
  findStepRun run branch name := .ask fun m => .ok (m.findStepRun run branch name)
  attempts stepRun := .ask fun m => .ok (m.attemptsOf stepRun)

end Memory
end CallFlow
