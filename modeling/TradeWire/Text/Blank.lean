/-! White space at the two ends of a text. -/

set_option autoImplicit false
set_option relaxedAutoImplicit false

namespace TradeWire.Text

/-- The characters with the Unicode property White_Space. -/
def isBlank (c : Char) : Bool :=
  let n := c.toNat
  (0x09 ≤ n && n ≤ 0x0d) || n == 0x20 || n == 0x85 || n == 0xa0 || n == 0x1680 ||
    (0x2000 ≤ n && n ≤ 0x200a) || n == 0x2028 || n == 0x2029 || n == 0x202f || n == 0x205f ||
    n == 0x3000

/-- Drop the members at the end of a list that satisfy `p`. -/
def dropTrailing {α : Type} (p : α → Bool) (l : List α) : List α :=
  (l.reverse.dropWhile p).reverse

def trim (s : String) : String :=
  String.ofList (dropTrailing isBlank (s.toList.dropWhile isBlank))

def isBlankText (s : String) : Bool := s.toList.all isBlank

end TradeWire.Text
