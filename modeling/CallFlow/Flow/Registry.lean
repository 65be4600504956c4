import CallFlow.Exit.Build
import CallFlow.Step.Message
import CallFlow.Step.Question
import CallFlow.Step.Menu

/-! # Registries

A configuration names kinds of steps and of exit paths; the registry maps the names to their
constructors. A kind of step may require services, which are checked once for a deployment.
-/
namespace CallFlow

structure StepKind where
  construct : StepArguments → Except ConfigError StepBehavior
  requires : List String

abbrev ExitKind := Fields → Except ConfigError ExitPath

structure Registry where
  steps : Table String StepKind
  exitPaths : Table String ExitKind

namespace Registry

def empty : Registry := ⟨.empty, .empty⟩

/-- Registers a kind of step, in the place of an earlier one of that name. -/
def withStep (r : Registry) (name : String)
    (construct : StepArguments → Except ConfigError StepBehavior) (requires : List String) :
    Registry :=
  { r with steps := r.steps.insert name ⟨construct, requires⟩ }

def withExit (r : Registry) (name : String) (kind : ExitKind) : Registry :=
  { r with exitPaths := r.exitPaths.insert name kind }

def builtins : Registry :=
  empty
    |>.withStep MessageStep.typeName MessageStep.construct []
    |>.withStep Question.typeName Question.construct []
    |>.withStep Menu.typeName Menu.construct []
    |>.withExit "hangup" ExitPath.buildHangup
    |>.withExit "transfer_to_queue" ExitPath.buildTransfer
    |>.withExit "handoff" ExitPath.buildHandoff

def construct (r : Registry) (t : StepTemplate) (branch : String) :
    Except ConfigError StepBehavior :=
  match r.steps.get? t.stepType with
  | none => .error (.unknownStepType branch t.name t.stepType)
  | some kind => kind.construct ⟨t.name, branch, t.arguments, t.actions⟩

def buildExit (r : Registry) (exitType : String) (arguments : Fields) :
    Except ConfigError ExitPath :=
  match r.exitPaths.get? exitType with
  | none => .error (.unknownExitPathType exitType)
  | some build => build arguments

def buildExitTemplate (r : Registry) (e : ExitTemplate) : Except ConfigError ExitPath :=
  r.buildExit e.exitType e.arguments

/-- Reports the first kind of step, by name, whose services are not all there. -/
def checkServices (r : Registry) (services : Services) : Except ConfigError Unit :=
  r.steps.entries.forM fun (name, kind) =>
    match kind.requires.find? fun service => !services.contains service with
    | some service => .error (.missingService name service)
    | none => .ok ()

def shownKinds (names : List String) : String :=
  "kinds: [" ++ ", ".intercalate (names.map Text.quoted) ++ "]"

def shown (r : Registry) (services : Services) : String :=
  "StepRegistry \x7b " ++ shownKinds r.steps.keys ++ " \x7d ExitPathRegistry \x7b " ++
    shownKinds r.exitPaths.keys ++ " \x7d Services \x7b count: " ++
    toString services.entries.length ++ " \x7d"

end Registry
end CallFlow
