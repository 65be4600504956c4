import CallFlow.Json.Record
import CallFlow.Text.Quoted

/-! # Bound input

What a caller entered, once it has been read as the type that a step asked for. It is
written as an object with its `type` and its `value`.
-/
namespace CallFlow

inductive StepInput
  | digits (s : String)
  | text (s : String)
  | number (n : Int64)
  | yesNo (b : Bool)
  | selection (key : String)
deriving DecidableEq, Repr, Inhabited

namespace StepInput

def kind : StepInput → String
  | digits _ => "digits"
  | text _ => "text"
  | number _ => "number"
  | yesNo _ => "yes_no"
  | selection _ => "selection"

def value : StepInput → Json
  | digits s | text s | selection s => .str s
  | number n => .int n.toInt
  | yesNo b => .bool b

def toJson (input : StepInput) : Json :=
  .obj [("type", .str input.kind), ("value", input.value)]

def ofKind? (kind : String) (value : Document) : Option StepInput :=
  match kind with
  | "digits" => value.text?.map digits
  | "text" => value.text?.map text
  | "number" => value.int64?.map fun n => number (Int64.ofInt n)
  | "yes_no" => value.bool?.map yesNo
  | "selection" => value.text?.map selection
  | _ => none

def kinds : List String := ["digits", "text", "number", "yes_no", "selection"]

/-- Reads an input. By name its type is a constant, by position it is a label. -/
def ofDocument? (reading : Document.Reading) (d : Document) : Option StepInput := do
  let r ← d.known? ["type", "value"]
  let kind ← r.required "type" fun type =>
    if r.positional then type.label? kinds reading else type.constant? reading
  let value ← r.find? "value"
  ofKind? kind value

def shown : StepInput → String
  | digits s => "Digits(" ++ Text.quoted s ++ ")"
  | text s => "Text(" ++ Text.quoted s ++ ")"
  | number n => "Number(" ++ toString n.toInt ++ ")"
  | yesNo b => "YesNo(" ++ toString b ++ ")"
  | selection key => "Selection(" ++ Text.quoted key ++ ")"

end StepInput
end CallFlow
