import CallFlow.Flow.Error

/-! # Typed access to arguments

A missing argument and a null one are the same.
-/
namespace CallFlow.Fields

def optionalText (arguments : Fields) (kind name : String) : Except ConfigError (Option String) :=
  match arguments.get? name with
  | none | some .null => .ok none
  | some (.str s) => .ok (some s)
  | some other => .error (.invalidArguments kind (.notText name other))

def requiredText (arguments : Fields) (kind name : String) : Except ConfigError String := do
  match ← optionalText arguments kind name with
  | some s => return s
  | none => throw (.invalidArguments kind (.missing name))

/-- A non-negative integer; a number with a point or an exponent is none. -/
def optionalCount (arguments : Fields) (kind name : String) : Except ConfigError (Option Nat) :=
  match arguments.get? name with
  | none | some .null => .ok none
  | some v@(.num (.int n)) =>
    if 0 ≤ n then .ok (some n.toNat) else .error (.invalidArguments kind (.notCount name v))
  | some other => .error (.invalidArguments kind (.notCount name other))

end CallFlow.Fields
