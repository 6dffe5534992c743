set_option autoImplicit false

namespace Lox.Text

def isGap (c : Char) : Bool :=
  (9 ≤ c.toNat && c.toNat ≤ 13) || c.toNat == 32

def blankPoints : List Nat :=
  [0x20, 0x85, 0xA0, 0x1680, 0x2028, 0x2029, 0x202F, 0x205F, 0x3000]

/-- White space of the Unicode standard, with the four separators below the space. -/
def isBlank (c : Char) : Bool :=
  let n := c.toNat
  (9 ≤ n && n ≤ 13) || (0x1C ≤ n && n ≤ 0x1F) || (0x2000 ≤ n && n ≤ 0x200A)
    || blankPoints.contains n

def trimRight (cs : List Char) : List Char :=
  (cs.reverse.dropWhile isBlank).reverse

end Lox.Text
