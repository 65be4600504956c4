import CallFlow.Text.Printable

/-! # Quoted text

Text between double quotes on one line, as diagnostics show it. A quote, a backslash and
the usual control characters are written with a backslash, other characters that are not
printable by their code point.
-/
namespace CallFlow.Text

def hexDigits (n : Nat) : String := String.ofList (Nat.toDigits 16 n)

def escaped (c : Char) : String :=
  match c with
  | '"' => "\\\""
  | '\\' => "\\\\"
  | '\t' => "\\t"
  | '\n' => "\\n"
  | '\r' => "\\r"
  | '\x00' => "\\0"
  | c => if isPrintable c then c.toString else "\\u\x7b" ++ hexDigits c.toNat ++ "\x7d"

def quoted (s : String) : String :=
  "\"" ++ String.join (s.toList.map escaped) ++ "\""

end CallFlow.Text
