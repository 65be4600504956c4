/-! # Decimal numerals

Signed numerals of 64-bit integers: an optional sign and one or more ASCII digits.
-/
namespace CallFlow.Text

/-- The value of a run of ASCII digits; other characters do not occur in one. -/
def digitsValue (digits : List Char) : Nat :=
  digits.foldl (fun n c => 10 * n + (c.toNat - '0'.toNat)) 0

def isDigits (cs : List Char) : Bool :=
  !cs.isEmpty && cs.all Char.isDigit

def fitsInt64 (n : Int) : Bool := -Int.pow 2 63 ≤ n && n < Int.pow 2 63

def int64OfInt? (n : Int) : Option Int64 :=
  if fitsInt64 n then some (Int64.ofInt n) else none

/-- A sign and the digits after it; no sign counts as plus. -/
def splitSign : List Char → Bool × List Char
  | '-' :: cs => (true, cs)
  | '+' :: cs => (false, cs)
  | cs => (false, cs)

def readInt64 (cs : List Char) : Option Int64 :=
  let (negative, digits) := splitSign cs
  if isDigits digits then
    int64OfInt? (if negative then -(digitsValue digits : Int) else digitsValue digits)
  else none

end CallFlow.Text
