/-! # Doubles as text

A double is kept as its 64 bits, so that equality is decidable and `0.0` and `-0.0` differ.
Its text has the fewest decimal digits that identify it, the nearest such digits to its
exact value, and always a point or an exponent. A numeral is read by scaling the integer
made of its leading digits by a power of ten.
-/
namespace CallFlow

/-- A 64-bit floating point number, by its bits. -/
structure Double where
  bits : UInt64
deriving DecidableEq, Repr, Inhabited

namespace Double

def ofFloat (f : Float) : Double := ⟨f.toBits⟩

def isNegative (d : Double) : Bool := Nat.pow 2 63 ≤ d.bits.toNat

/-- Mantissa and exponent: a finite double is `m * 2 ^ q` up to its sign. -/
def parts (d : Double) : Nat × Int :=
  let exponent : Nat := d.bits.toNat / Nat.pow 2 52 % Nat.pow 2 11
  let fraction : Nat := d.bits.toNat % Nat.pow 2 52
  if exponent = 0 then (fraction, -1074)
  else (Nat.pow 2 52 + fraction, Int.ofNat exponent - 1075)

structure Decimal where
  digits : Nat
  exponent : Int
deriving DecidableEq, Repr

/-- `(a * 2 ^ p) / 10 ^ e` as a numerator and a denominator. -/
def ratio (a : Nat) (p e : Int) : Nat × Nat :=
  (a * Nat.pow 2 p.toNat * Nat.pow 10 (-e).toNat, Nat.pow 2 (-p).toNat * Nat.pow 10 e.toNat)

/-- The nearest grid point `n * 10 ^ e` that reads back as the double with the given parts:
the numbers that do lie within half a unit of the last place, the ends included for an even
mantissa, and only a quarter below a power of two. -/
def gridPoint? (m : Nat) (q e : Int) : Option Nat :=
  let (num, den) := ratio (4 * m) (q - 2) e
  let least := if m = Nat.pow 2 52 && q ≠ -1074 then 4 * m - 1 else 4 * m - 2
  let low := (ratio least (q - 2) e).1
  let high := (ratio (4 * m + 2) (q - 2) e).1
  let inside (n : Nat) : Bool :=
    if m % 2 = 0 then low ≤ n * den && n * den ≤ high else low < n * den && n * den < high
  let below := num / den
  let above := below + 1
  match inside below, inside above with
  | true, true =>
    let down := num - below * den
    let up := above * den - num
    some (if down < up || (down = up && below % 2 = 0) then below else above)
  | true, false => some below
  | false, true => some above
  | false, false => none

/-- Tries ever finer decimal grids; seventeen digits always suffice. -/
def search (m : Nat) (q : Int) : Nat → Int → Decimal
  | 0, e => ⟨(ratio m q e).1 / (ratio m q e).2, e⟩
  | tries + 1, e =>
    match gridPoint? m q e with
    | some n => ⟨n, e⟩
    | none => search m q tries (e - 1)

def shortest (m : Nat) (q : Int) : Decimal :=
  let scaled := (ratio m q (-350)).1 / (ratio m q (-350)).2
  search m q 20 ((Nat.toDigits 10 scaled).length - 350)

def zeros (n : Nat) : List Char := List.replicate n '0'

/-- Positional from `10 ^ -5` up to `10 ^ 16`, with a signed exponent otherwise. -/
def Decimal.text (d : Decimal) : List Char :=
  let digits := Nat.toDigits 10 d.digits
  let point : Int := digits.length + d.exponent
  if -5 < point && point ≤ 16 then
    if d.exponent ≥ 0 then digits ++ zeros d.exponent.toNat ++ ['.', '0']
    else if point > 0 then digits.take point.toNat ++ '.' :: digits.drop point.toNat
    else '0' :: '.' :: zeros (-point).toNat ++ digits
  else
    let tail := match digits.drop 1 with
      | [] => []
      | rest => '.' :: rest
    let exponent := point - 1
    digits.take 1 ++ tail ++
      'e' :: (if exponent < 0 then '-' else '+') :: Nat.toDigits 10 exponent.natAbs

def text (d : Double) : String :=
  let (m, q) := d.parts
  let magnitude := if m = 0 then ['0', '.', '0'] else (shortest m q).text
  String.ofList (if d.isNegative then '-' :: magnitude else magnitude)

def powerOfTen (n : Nat) : Float := Float.ofScientific 1 false n

/-- `significand * 10 ^ exponent` in floating point; nothing when it overflows. A scale
below `10 ^ -308` is applied in steps, and below `10 ^ -616` nothing is left. -/
def scale? (significand : Nat) (exponent : Int) : Option Float :=
  let f := Float.ofNat significand
  if significand = 0 then some f
  else if exponent > 308 then none
  else if exponent ≥ 0 then
    let scaled := f * powerOfTen exponent.toNat
    if scaled.isInf then none else some scaled
  else if exponent ≥ -308 then some (f / powerOfTen (-exponent).toNat)
  else if exponent ≥ -616 then some (f / powerOfTen 308 / powerOfTen (-exponent - 308).toNat)
  else some 0

def ofScaled? (negative : Bool) (significand : Nat) (exponent : Int) : Option Double :=
  (scale? significand exponent).map fun f => ofFloat (if negative then -f else f)

end Double
end CallFlow
