/-!
# Blank characters

The characters with the Unicode property White_Space, and trimming by them.
-/

set_option autoImplicit false

namespace DurableBus

/-- The characters that count as white space: the ASCII controls and blanks, next line, no-break space, and the
spaces and separators of the general punctuation and CJK blocks. -/
def isBlank (c : Char) : Bool :=
  let n := c.toNat
  (0x09 ≤ n && n ≤ 0x0D) || n == 0x20 || n == 0x85 || n == 0xA0 || n == 0x1680 || (0x2000 ≤ n && n ≤ 0x200A)
    || n == 0x2028 || n == 0x2029 || n == 0x202F || n == 0x205F || n == 0x3000

def trimBlanks (cs : List Char) : List Char :=
  ((cs.dropWhile isBlank).reverse.dropWhile isBlank).reverse

end DurableBus
