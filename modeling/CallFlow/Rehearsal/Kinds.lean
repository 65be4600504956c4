import CallFlow.Json.Access
import CallFlow.Flow.Registry

/-! # Kinds of steps for rehearsals

Kinds by which a flow can be exercised without telephones: an account lookup that asks a
directory, a step that always succeeds, steps that follow a script, and menus or questions
that are asked for input of another type.
-/
namespace CallFlow

def InputType.ofJson? (v : Json) : Option InputType :=
  match (v.field? "kind").bind Json.asText? with
  | some "digits" => some (.digits (((v.field? "min_length").bind Json.asNat?).getD 0)
      ((v.field? "max_length").bind Json.asNat?))
  | some "exact" => some (.exactly (((v.field? "length").bind Json.asNat?).getD 0))
  | some "text" => some (.text ((v.field? "max_length").bind Json.asNat?))
  | some "number" => some .number
  | some "yes_no" => some .yesNo
  | some "selection" => some (.selection
      ((((v.field? "keys").bind Json.asItems?).getD []).filterMap Json.asText?))
  | _ => none

namespace Rehearsal

def argument (args : StepArguments) (name : String) : Option Json := args.arguments.get? name

def textArgument (args : StepArguments) (name : String) : Option String :=
  (argument args name).bind Json.asText?

/-! ## Account lookup -/

def lookUp (directory : String) (ctx : StepContext) (session : Session) :
    Except StepError StepResult × Session :=
  match ctx.service directory with
  | .error e => (.error e, session)
  | .ok accounts =>
    match session.get? "account" with
    | some (.str account) =>
      if ((accounts.asItems?).getD []).contains (.str account) then
        (.ok (.success none), session.insert "verified" (.bool true))
      else (.error (.user "We could not find that account"), session)
    | _ => (.error (.fatal "no account in session"), session)

def unprompted (typeName : String)
    (run : StepContext → Session → Except StepError StepResult × Session) : StepBehavior where
  typeName := typeName
  inputType := none
  prompt := none
  errorMessage := none
  run := run
  saveResult := StepBehavior.keepNothing

def lookup (directory : String) (_ : StepArguments) : Except ConfigError StepBehavior :=
  .ok (unprompted "lookup" (lookUp directory))

def plain (_ : StepArguments) : Except ConfigError StepBehavior :=
  .ok (unprompted "plain" fun _ session => (.ok (.saying "plain"), session))

/-! ## Scripts -/

def scriptedOutcome (line : Json) : Except StepError StepResult :=
  let failure (name : String) (make : String → StepError) : Option StepError :=
    ((line.field? name).bind Json.asText?).map make
  let found :=
    (failure "user" .user).or ((failure "retryable" .internal).or (failure "fatal" .fatal))
  match found with
  | some e =>
    .error <| match (line.field? "reset_step").bind Json.asText? with
      | some step => e.withReset step
      | none => e
  | none =>
    let result := (line.field? "ok").bind fun v => StepResult.ofDocument? (.settled v)
    .ok (result.getD (.success none))

def setFacts (line : Json) (session : Session) : Session :=
  let facts := ((line.field? "set").bind Json.asFields?).getD .empty
  facts.entries.foldl (fun s fact => s.insert fact.1 fact.2) session

structure Script where
  lines : List Json
  counter : String
  saveKey : Option String

/-- Plays the line that the counter stands at, or the last one. The counter is a 64-bit word,
so that after its greatest value it starts over. -/
def Script.run (s : Script) (_ : StepContext) (session : Session) :
    Except StepError StepResult × Session :=
  let n := ((session.get? s.counter).bind Json.asNat?).getD 0
  let session := session.insert s.counter (.nat ((n + 1) % Nat.pow 2 64))
  match s.lines[n]?.or s.lines.getLast? with
  | none => (.ok (.success none), session)
  | some line => (scriptedOutcome line, setFacts line session)

def Script.saveResult (s : Script) (_ : StepContext) (result : StepResult) (session : Session) :
    StepResult × Session :=
  match s.saveKey with
  | none => (result, session)
  | some key => (.saying "saved", session.insert key result.toJson)

def scripted (args : StepArguments) : Except ConfigError StepBehavior :=
  let script : Script := {
    lines := ((argument args "script").bind Json.asItems?).getD []
    counter := (textArgument args "counter").getD ("n:" ++ args.branch ++ "/" ++ args.name)
    saveKey := textArgument args "save_key" }
  .ok {
    typeName := "scripted"
    inputType := (argument args "input").bind InputType.ofJson?
    prompt := textArgument args "prompt"
    errorMessage := textArgument args "error_message"
    run := script.run
    saveResult := script.saveResult }

/-! ## Other input types -/

/-- A menu or a question that is asked for another type of input than its own. -/
def wrapped (args : StepArguments) : Except ConfigError StepBehavior := do
  let inner ←
    if textArgument args "inner" = some "input" then Question.construct args
    else Menu.construct args
  return { inner with inputType := (argument args "as").bind InputType.ofJson? }

def voicemail : ExitKind := fun arguments => .ok (.custom "voicemail" arguments)

/-- The built-in kinds with the kinds for rehearsals. The requirements are those of the
lookup and of the plain step. -/
def registry (directory : String) (lookupRequires plainRequires : List String) : Registry :=
  Registry.builtins
    |>.withStep "lookup" (lookup directory) lookupRequires
    |>.withStep "plain" plain plainRequires
    |>.withStep "scripted" scripted []
    |>.withStep "wrapped" wrapped []
    |>.withExit "voicemail" voicemail

end Rehearsal
end CallFlow
