/-! Blank characters, and trimming by a class of characters. -/
namespace ProjectIndex.Text

/-- The characters with the Unicode property White_Space. -/
def isBlank (c : Char) : Bool :=
  let n := c.toNat
  (9 ≤ n && n ≤ 13) || n == 0x20 || n == 0x85 || n == 0xA0 || n == 0x1680 ||
    (0x2000 ≤ n && n ≤ 0x200A) || n == 0x2028 || n == 0x2029 || n == 0x202F || n == 0x205F ||
    n == 0x3000

def isAsciiBlank (c : Char) : Bool :=
  c == ' ' || c == '\t' || c == '\n' || c == '\x0c' || c == '\r'

def trimStart (p : Char → Bool) (s : List Char) : List Char := s.dropWhile p

def trimEnd (p : Char → Bool) (s : List Char) : List Char := (s.reverse.dropWhile p).reverse

def trimBoth (p : Char → Bool) (s : List Char) : List Char := trimEnd p (trimStart p s)

def trim (s : List Char) : List Char := trimBoth isBlank s

end ProjectIndex.Text
