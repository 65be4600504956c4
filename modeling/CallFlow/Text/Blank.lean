/-! # White space

The characters with the Unicode property White_Space, and texts without them at either end.
-/
namespace CallFlow.Text

/-- The twenty-five characters of Unicode's White_Space property. -/
def isBlank (c : Char) : Bool :=
  (0x09 ≤ c.toNat && c.toNat ≤ 0x0D) || (0x2000 ≤ c.toNat && c.toNat ≤ 0x200A) ||
    [0x20, 0x85, 0xA0, 0x1680, 0x2028, 0x2029, 0x202F, 0x205F, 0x3000].contains c.toNat

def dropEnd (p : Char → Bool) (cs : List Char) : List Char :=
  (cs.reverse.dropWhile p).reverse

def trim (cs : List Char) : List Char :=
  dropEnd isBlank (cs.dropWhile isBlank)

end CallFlow.Text
