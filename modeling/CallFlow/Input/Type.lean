import CallFlow.Input.Value
import CallFlow.Text.Blank

/-! # Input types

What a step asks for, and the binding of raw input to it. White space around the input
does not count, and neither do the terminator keys after a keypad entry; an answer to a
yes-or-no question and free text have no terminator.
-/
namespace CallFlow

inductive InputType
  | digits (minLength : Nat) (maxLength : Option Nat)
  | text (maxLength : Option Nat)
  | number
  | yesNo
  | selection (keys : List String)
deriving DecidableEq, Repr, Inhabited

inductive BindError
  | missing
  | invalid (expected got : String)
deriving DecidableEq, Repr

def BindError.message : BindError → String
  | missing => "no input was provided"
  | invalid expected got => "expected " ++ expected ++ ", got '" ++ got ++ "'"

namespace InputType

def exactly (length : Nat) : InputType := .digits length (some length)

def describe : InputType → String
  | digits least (some most) =>
    if least = most then toString most ++ " digits"
    else toString least ++ " to " ++ toString most ++ " digits"
  | digits least none => "at least " ++ toString least ++ " digits"
  | text _ => "text"
  | number => "a number"
  | yesNo => "yes or no"
  | selection keys => "one of " ++ ", ".intercalate keys

/-- The key that ends a keypad entry. -/
def isTerminator (c : Char) : Bool := c = '#'

def withinMost (most : Option Nat) (n : Nat) : Bool := most.all (n ≤ ·)

/-- The answer to a yes-or-no question, by key or by word in any case. -/
def answer? (cs : List Char) : Option Bool :=
  let word := String.ofList (cs.map Char.toLower)
  if word = "1" || word = "y" || word = "yes" then some true
  else if word = "2" || word = "n" || word = "no" then some false
  else none

/-- Reads non-empty input without white space around it. -/
def read? (type : InputType) (cs : List Char) : Option StepInput :=
  let entry := Text.dropEnd isTerminator cs
  match type with
  | digits least most =>
    if Text.isDigits entry && least ≤ entry.length && withinMost most entry.length then
      some (.digits (String.ofList entry))
    else none
  | text most => if withinMost most cs.length then some (.text (String.ofList cs)) else none
  | number => (Text.readInt64 entry).map .number
  | yesNo => (answer? cs).map .yesNo
  | selection keys =>
    let key := String.ofList entry
    if keys.contains key then some (.selection key) else none

def bind (type : InputType) (raw : Option String) : Except BindError StepInput :=
  match Text.trim (raw.getD "").toList with
  | [] => .error .missing
  | cs =>
    match type.read? cs with
    | some input => .ok input
    | none => .error (.invalid type.describe (String.ofList cs))

end InputType
end CallFlow
