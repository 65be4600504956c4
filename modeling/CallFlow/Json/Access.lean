import CallFlow.Json.Value

/-! # Looking into a JSON value

A look that does not find what it wants gives nothing.
-/
namespace CallFlow.Json

def field? (v : Json) (name : String) : Option Json :=
  match v with
  | .obj members => (members.find? (·.1 = name)).map (·.2)
  | _ => none

def asText? : Json → Option String
  | .str s => some s
  | _ => none

def asBool? : Json → Option Bool
  | .bool b => some b
  | _ => none

def asInt? : Json → Option Int
  | .num (.int n) => some n
  | _ => none

def asNat? : Json → Option Nat
  | .num (.int n) => if 0 ≤ n then some n.toNat else none
  | _ => none

def asItems? : Json → Option (List Json)
  | .arr items => some items
  | _ => none

def asFields? : Json → Option Fields
  | .obj members => some (Table.ofList members)
  | _ => none

end CallFlow.Json
