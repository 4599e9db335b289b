/-!
# Blanks around a text

The characters with the white-space property: a text read from a configuration is taken without those at
its ends.
-/

set_option autoImplicit false

namespace Tagwire

/-- Has the character the white-space property? -/
def isWhiteSpace (c : Char) : Bool :=
  let n := c.toNat
  (9 ≤ n && n ≤ 13) || n == 0x20 || n == 0x85 || n == 0xA0 || n == 0x1680 || (0x2000 ≤ n && n ≤ 0x200A)
    || n == 0x2028 || n == 0x2029 || n == 0x202F || n == 0x205F || n == 0x3000

/-- The text without white space at its ends. -/
def trimmed (text : String) : String :=
  String.ofList ((text.toList.dropWhile isWhiteSpace).reverse.dropWhile isWhiteSpace).reverse

end Tagwire
