/-!
Byte offsets into a text. Positions count the bytes of the UTF-8 form, so an offset may fall inside
a character; cutting there finds nothing.
-/
namespace ProjectIndex.Text

def byteLength (s : List Char) : Nat := s.foldr (fun c n => c.utf8Size + n) 0

/-- The rest of the text from byte `n`, if a character starts or the text ends there. -/
def dropBytes? (n : Nat) : List Char → Option (List Char)
  | [] => if n = 0 then some [] else none
  | c :: s =>
    if n = 0 then some (c :: s)
    else if c.utf8Size ≤ n then dropBytes? (n - c.utf8Size) s
    else none

def takeBytes? (n : Nat) : List Char → Option (List Char)
  | [] => if n = 0 then some [] else none
  | c :: s =>
    if n = 0 then some []
    else if c.utf8Size ≤ n then (takeBytes? (n - c.utf8Size) s).map (c :: ·)
    else none

/-- The text between two byte offsets; empty unless both lie on character boundaries in order. -/
def slice (s : List Char) (start stop : Nat) : List Char :=
  if start ≤ stop then ((dropBytes? start s).bind (takeBytes? (stop - start))).getD [] else []

end ProjectIndex.Text
