import CallFlow.Json.Value
import CallFlow.Text.Numeral

/-! # Tokens of JSON text

The text is read one character at a time by a machine that stands between tokens or inside
one. A string with an unpaired surrogate and a number beyond the doubles are tokens without
a value: they are well written, and only a reader that wants their value has to refuse them.
-/
namespace CallFlow

inductive Token
  | listOpen
  | listClose
  | recordOpen
  | recordClose
  | comma
  | colon
  | text (s : Option String)
  | scalar (v : Option Json)
deriving Repr

/-- The pieces of a numeral: `-integer.fraction` times ten to the `exponent`. -/
structure Numeral where
  negative : Bool
  integer : List Char
  fraction : List Char
  exponent : Option Int

namespace Numeral

def readExponent : List Char → Option (Option Int)
  | [] => some none
  | e :: rest =>
    if e = 'e' || e = 'E' then
      let (negative, digits) := Text.splitSign rest
      if Text.isDigits digits then
        some (some (if negative then -(Text.digitsValue digits : Int) else Text.digitsValue digits))
      else none
    else none

/-- Splits a numeral; a leading zero stands alone before the point. -/
def ofChars? (cs : List Char) : Option Numeral :=
  let (negative, cs) := match cs with
    | '-' :: rest => (true, rest)
    | _ => (false, cs)
  let (integer, cs) := cs.span Char.isDigit
  if integer.isEmpty || (integer.head? = some '0' && integer.length > 1) then none
  else match cs with
    | '.' :: rest =>
      let (fraction, cs) := rest.span Char.isDigit
      if fraction.isEmpty then none
      else (readExponent cs).map (⟨negative, integer, fraction, ·⟩)
    | _ => (readExponent cs).map (⟨negative, integer, [], ·⟩)

/-- Appends digits to a significand while it stays below `2 ^ 64`, and counts those left out. -/
def gather : Nat → List Char → Nat × Nat
  | significand, [] => (significand, 0)
  | significand, c :: rest =>
    let next := 10 * significand + (c.toNat - '0'.toNat)
    if next < Nat.pow 2 64 then gather next rest else (significand, rest.length + 1)

/-- An integer that fits is exact; a minus zero and all other numbers are doubles. -/
def number? (n : Numeral) : Option Number :=
  let (whole, dropped) := gather 0 n.integer
  if n.fraction.isEmpty && n.exponent.isNone && dropped = 0 && !(n.negative && whole = 0) &&
      (!n.negative || whole ≤ Nat.pow 2 63) then
    some (.int (if n.negative then -(whole : Int) else whole))
  else
    let (significand, unread) := gather whole n.fraction
    let places : Int := n.fraction.length - unread
    (Double.ofScaled? n.negative significand (dropped - places + n.exponent.getD 0)).map .double

end Numeral

namespace Token

def isHighSurrogate (u : Nat) : Bool := 0xD800 ≤ u && u < 0xDC00

def isLowSurrogate (u : Nat) : Bool := 0xDC00 ≤ u && u < 0xE000

/-- The characters of code units; nothing when a surrogate is left without its partner. -/
def joinUnits : List Nat → Option (List Char)
  | [] => some []
  | [u] => if isHighSurrogate u || isLowSurrogate u then none else some [Char.ofNat u]
  | u :: v :: rest =>
    if isHighSurrogate u && isLowSurrogate v then
      (joinUnits rest).map (Char.ofNat (0x10000 + (u - 0xD800) * 0x400 + (v - 0xDC00)) :: ·)
    else if isHighSurrogate u || isLowSurrogate u then none
    else (joinUnits (v :: rest)).map (Char.ofNat u :: ·)

/-- Where the machine stands: between tokens or inside one, with what it has read of it,
newest first. -/
inductive Place
  | between
  | word (cs : List Char)
  | numeral (cs : List Char)
  | text (units : List Nat)
  | escape (units : List Nat)
  | hex (units : List Nat) (missing value : Nat)

def ofWord? (cs : List Char) : Option Token :=
  if cs = ['n', 'u', 'l', 'l'] then some (.scalar (some .null))
  else if cs = ['t', 'r', 'u', 'e'] then some (.scalar (some (.bool true)))
  else if cs = ['f', 'a', 'l', 's', 'e'] then some (.scalar (some (.bool false)))
  else none

def ofNumeral? (cs : List Char) : Option Token :=
  (Numeral.ofChars? cs).map fun n => .scalar (n.number?.map .num)

def isSpace (c : Char) : Bool := c = ' ' || c = '\t' || c = '\n' || c = '\r'

def start (tokens : List Token) (c : Char) : Option (List Token × Place) :=
  match c with
  | '[' => some (.listOpen :: tokens, .between)
  | ']' => some (.listClose :: tokens, .between)
  | '\x7b' => some (.recordOpen :: tokens, .between)
  | '\x7d' => some (.recordClose :: tokens, .between)
  | ',' => some (.comma :: tokens, .between)
  | ':' => some (.colon :: tokens, .between)
  | '"' => some (tokens, .text [])
  | c =>
    if isSpace c then some (tokens, .between)
    else if c = '-' || c.isDigit then some (tokens, .numeral [c])
    else if c.isLower then some (tokens, .word [c])
    else none

def isNumeralChar (c : Char) : Bool :=
  c.isDigit || c = '+' || c = '-' || c = '.' || c = 'e' || c = 'E'

def shortEscape? : Char → Option Nat
  | '"' => some '"'.toNat
  | '\\' => some '\\'.toNat
  | '/' => some '/'.toNat
  | 'b' => some 8
  | 'f' => some 12
  | 'n' => some 10
  | 'r' => some 13
  | 't' => some 9
  | _ => none

def hexValue? (c : Char) : Option Nat :=
  if c.isDigit then some (c.toNat - '0'.toNat)
  else if 'a' ≤ c && c ≤ 'f' then some (c.toNat - 'a'.toNat + 10)
  else if 'A' ≤ c && c ≤ 'F' then some (c.toNat - 'A'.toNat + 10)
  else none

/-- Reads one character; nothing when no text goes on so. -/
def step (state : List Token × Place) (c : Char) : Option (List Token × Place) :=
  let (tokens, place) := state
  match place with
  | .between => start tokens c
  | .word cs =>
    if c.isLower then some (tokens, .word (c :: cs))
    else (ofWord? cs.reverse).bind fun t => start (t :: tokens) c
  | .numeral cs =>
    if isNumeralChar c then some (tokens, .numeral (c :: cs))
    else (ofNumeral? cs.reverse).bind fun t => start (t :: tokens) c
  | .text units =>
    if c = '"' then
      some (.text ((joinUnits units.reverse).map String.ofList) :: tokens, .between)
    else if c = '\\' then some (tokens, .escape units)
    else if c.toNat < 0x20 then none
    else some (tokens, .text (c.toNat :: units))
  | .escape units =>
    if c = 'u' then some (tokens, .hex units 4 0)
    else (shortEscape? c).map fun u => (tokens, .text (u :: units))
  | .hex units missing value =>
    (hexValue? c).map fun h =>
      if missing ≤ 1 then (tokens, .text ((16 * value + h) :: units))
      else (tokens, .hex units (missing - 1) (16 * value + h))

/-- Ends the text; a string must be closed. -/
def finish : List Token × Place → Option (List Token)
  | (tokens, .between) => some tokens.reverse
  | (tokens, .word cs) => (ofWord? cs.reverse).map fun t => (t :: tokens).reverse
  | (tokens, .numeral cs) => (ofNumeral? cs.reverse).map fun t => (t :: tokens).reverse
  | _ => none

def scan (cs : List Char) : Option (List Token) :=
  (cs.foldlM step ([], .between)).bind finish

end Token
end CallFlow
