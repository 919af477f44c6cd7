import KeyspaceQuery.Text.Ranges

/-! The property White_Space, and lines stripped of it. The lexer has a narrower idea of blanks:
see `Token.isBlank`. -/

namespace KeyspaceQuery.Text

def whiteSpaceRanges : Ranges := [
  (0x85, 0x85), (0xA0, 0xA0), (0x1680, 0x1680), (0x2000, 0x200A), (0x2028, 0x2029),
  (0x202F, 0x202F), (0x205F, 0x205F), (0x3000, 0x3000)]

def isWhiteSpace (c : Char) : Bool :=
  c == ' ' || (9 ≤ c.toNat && c.toNat ≤ 13) || (128 ≤ c.toNat && whiteSpaceRanges.holds c)

/-- The characters without the white space at both ends. -/
def trimChars (cs : List Char) : List Char :=
  ((cs.dropWhile isWhiteSpace).reverse.dropWhile isWhiteSpace).reverse

def trim (s : String) : String := String.ofList (trimChars s.toList)

end KeyspaceQuery.Text
