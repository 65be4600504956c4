import CallFlow.Json.Printer

/-! # What can be wrong with a flow configuration

Each cause carries what its message names.
-/
namespace CallFlow

inductive ArgumentFault
  | missing (name : String)
  | notText (name : String) (got : Json)
  | notCount (name : String) (got : Json)
  | lengthConflict
  | zeroLength
  | lengthOrder
  | unsupportedInput (type : String)
  | noActions
  | exitKeyTaken (key : String)
  | duplicateKey (key : String)
  | emptyQueue
deriving DecidableEq, Repr

def ArgumentFault.message : ArgumentFault → String
  | missing name => "missing required argument '" ++ name ++ "'"
  | notText name got => "argument '" ++ name ++ "' must be a string, got " ++ got.print
  | notCount name got =>
    "argument '" ++ name ++ "' must be a non-negative integer, got " ++ got.print
  | lengthConflict => "'length' cannot be combined with 'min_length' or 'max_length'"
  | zeroLength => "input lengths must be at least 1"
  | lengthOrder => "min_length exceeds max_length"
  | unsupportedInput type => "unsupported input_type '" ++ type ++ "'"
  | noActions => "a menu needs at least one action"
  | exitKeyTaken key => "action key '" ++ key ++ "' collides with the exit queue digit"
  | duplicateKey key => "duplicate action key '" ++ key ++ "'"
  | emptyQueue => "queue must not be empty"

inductive ConfigError
  | notFound (tag : String)
  | noBranches
  | duplicateBranch (branch : String)
  | emptyBranch (branch : String)
  | duplicateStep (branch step : String)
  | branchNotFound (branch : String)
  | stepNotFound (branch step : String)
  | unknownStepType (branch step stepType : String)
  | unknownExitPathType (exitType : String)
  | unknownSwitchBranch (branch step target : String)
  | unknownResetStep (branch step target : String)
  | invalidArguments (kind : String) (fault : ArgumentFault)
  | missingService (stepType service : String)
deriving DecidableEq, Repr

def ConfigError.message : ConfigError → String
  | notFound tag => "workflow config '" ++ tag ++ "' not found"
  | noBranches => "workflow config has no branches"
  | duplicateBranch branch => "duplicate branch '" ++ branch ++ "'"
  | emptyBranch branch => "branch '" ++ branch ++ "' has no steps"
  | duplicateStep branch step => "duplicate step '" ++ step ++ "' on branch '" ++ branch ++ "'"
  | branchNotFound branch => "branch '" ++ branch ++ "' not found"
  | stepNotFound branch step => "step '" ++ step ++ "' not found on branch '" ++ branch ++ "'"
  | unknownStepType branch step stepType =>
    "unknown step type '" ++ stepType ++ "' for step '" ++ branch ++ "/" ++ step ++ "'"
  | unknownExitPathType exitType => "unknown exit path type '" ++ exitType ++ "'"
  | unknownSwitchBranch branch step target =>
    "step '" ++ branch ++ "/" ++ step ++ "' switches on error to unknown branch '" ++ target ++ "'"
  | unknownResetStep branch step target =>
    "step '" ++ branch ++ "/" ++ step ++ "' resets on error to unknown step '" ++ target ++ "'"
  | invalidArguments kind fault => "invalid arguments for '" ++ kind ++ "': " ++ fault.message
  | missingService stepType service =>
    "step type '" ++ stepType ++ "' requires service " ++ service ++ ", which is not registered"

end CallFlow
