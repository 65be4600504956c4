import CallFlow.Step.Behavior
import CallFlow.Flow.Arguments

/-! # Questions

A question collects one typed value from the caller. The lengths it accepts are checked when
it is built, so that every question that is accepted can be answered.
-/
namespace CallFlow

structure Question where
  prompt : String
  errorMessage : Option String
  inputType : InputType
  sessionKey : Option String
deriving DecidableEq

namespace Question

def typeName : String := "input"

def refuse {α : Type} (fault : ArgumentFault) : Except ConfigError α :=
  .error (.invalidArguments typeName fault)

/-- The type of a digits question; an exact length stands alone. -/
def digitsType (arguments : Fields) : Except ConfigError InputType := do
  let length ← Fields.optionalCount arguments typeName "length"
  let least ← Fields.optionalCount arguments typeName "min_length"
  let most ← Fields.optionalCount arguments typeName "max_length"
  match length, least, most with
  | some n, none, none => return .exactly n
  | none, least, most => return .digits (least.getD 1) most
  | _, _, _ => refuse .lengthConflict

def declaredType (arguments : Fields) : Except ConfigError InputType := do
  match ← Fields.requiredText arguments typeName "input_type" with
  | "digits" => digitsType arguments
  | "text" => return .text (← Fields.optionalCount arguments typeName "max_length")
  | "number" => return .number
  | "yes_no" => return .yesNo
  | other => refuse (.unsupportedInput other)

/-- What keeps an input type from ever being met. -/
def lengthFault? : InputType → Option ArgumentFault
  | .digits least most =>
    if least = 0 || most = some 0 then some .zeroLength
    else if most.any (· < least) then some .lengthOrder
    else none
  | .text most => if most = some 0 then some .zeroLength else none
  | _ => none

def build (args : StepArguments) : Except ConfigError Question := do
  let inputType ← declaredType args.arguments
  match lengthFault? inputType with
  | some fault => refuse fault
  | none =>
    let prompt ← Fields.requiredText args.arguments typeName "prompt"
    let errorMessage ← Fields.optionalText args.arguments typeName "error_message"
    let sessionKey ← Fields.optionalText args.arguments typeName "session_key"
    return ⟨prompt, errorMessage, inputType, sessionKey⟩

def run (_ : Question) (ctx : StepContext) (session : Session) :
    Except StepError StepResult × Session :=
  (ctx.requireInput.map (.inputSuccess · none), session)

def saveResult (q : Question) (_ : StepContext) (result : StepResult) (session : Session) :
    StepResult × Session :=
  match q.sessionKey, result with
  | some key, .inputSuccess input _ => (result, session.insert key input.value)
  | _, _ => (result, session)

def behavior (q : Question) : StepBehavior where
  typeName := typeName
  inputType := some q.inputType
  prompt := some q.prompt
  errorMessage := q.errorMessage
  run := q.run
  saveResult := q.saveResult

def construct (args : StepArguments) : Except ConfigError StepBehavior :=
  (build args).map behavior

end Question
end CallFlow
