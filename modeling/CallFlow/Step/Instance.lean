import CallFlow.Flow.Registry
import CallFlow.Store.Record

/-! # Steps and their runs

A step is what a template builds on a branch. Once it is recorded it is bound to its step
run and to the attempts made so far.
-/
namespace CallFlow

structure Step where
  name : String
  branch : String
  resetTarget : Option String
  switchTarget : Option String
  retryCount : Option UInt32
  behavior : StepBehavior
  /-- The arguments it was built with, as its step run keeps them. -/
  snapshot : Json

namespace Step

def ofTemplate (t : StepTemplate) (branch : String) (registry : Registry) :
    Except ConfigError Step := do
  let behavior ← registry.construct t branch
  return ⟨t.name, branch, t.resetTarget, t.switchTarget, t.retryCount, behavior, t.snapshot⟩

def isInput (s : Step) : Bool := s.behavior.inputType.isSome

def newStepRun (s : Step) (run : Int) : NewStepRun :=
  ⟨run, s.name, s.branch, s.behavior.typeName, s.snapshot⟩

end Step

/-- A recorded visit to a step with its attempts, oldest first. -/
structure StepRun where
  record : StepRunRecord
  attempts : List AttemptRecord
deriving DecidableEq

namespace StepRun

def runCount (r : StepRun) : Nat := r.attempts.length

def push (r : StepRun) (a : AttemptRecord) : StepRun := { r with attempts := r.attempts ++ [a] }

end StepRun

structure BoundStep where
  step : Step
  stepRun : StepRun

end CallFlow
