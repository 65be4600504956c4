import CallFlow.Json.Value

/-! # Compact JSON text

No spaces, members in their stored order, and an escape only for the quote, the backslash
and the control characters.
-/
namespace CallFlow

def Number.text : Number → String
  | .int n => toString n
  | .double d => d.text

namespace Json

def hex4 (n : Nat) : List Char :=
  let digits := Nat.toDigits 16 n
  List.replicate (4 - digits.length) '0' ++ digits

def escapedChar (c : Char) : List Char :=
  match c with
  | '"' => ['\\', '"']
  | '\\' => ['\\', '\\']
  | '\x08' => ['\\', 'b']
  | '\x0c' => ['\\', 'f']
  | '\n' => ['\\', 'n']
  | '\r' => ['\\', 'r']
  | '\t' => ['\\', 't']
  | c => if c.toNat < 0x20 then '\\' :: 'u' :: hex4 c.toNat else [c]

def quotedText (s : String) : String :=
  String.ofList ('"' :: s.toList.flatMap escapedChar ++ ['"'])

mutual

def print : Json → String
  | .null => "null"
  | .bool true => "true"
  | .bool false => "false"
  | .num n => n.text
  | .str s => quotedText s
  | .arr items => "[" ++ ",".intercalate (printItems items) ++ "]"
  | .obj members => "\x7b" ++ ",".intercalate (printMembers members) ++ "\x7d"

def printItems : List Json → List String
  | [] => []
  | x :: rest => print x :: printItems rest

def printMembers : List (String × Json) → List String
  | [] => []
  | (key, x) :: rest => (quotedText key ++ ":" ++ print x) :: printMembers rest

end

end Json
end CallFlow
