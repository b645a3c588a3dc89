import ProjectIndex.Text.Bytes
import ProjectIndex.Text.Search
import ProjectIndex.Tree.Shape

/-! A place in a source: the byte offset and the text from there on. -/
namespace ProjectIndex

structure Cursor where
  pos : Nat
  rest : List Char
deriving DecidableEq, Inhabited, Repr

namespace Cursor

/-- The start of a source, behind a byte order mark. -/
def ofSource : Source → Cursor
  | '\uFEFF' :: rest => ⟨3, rest⟩
  | src => ⟨0, src⟩

def advance (c : Cursor) (n : Nat) : Cursor :=
  ⟨c.pos + Text.byteLength (c.rest.take n), c.rest.drop n⟩

def skipWhile (c : Cursor) (p : Char → Bool) : Cursor :=
  ⟨c.pos + Text.byteLength (c.rest.takeWhile p), c.rest.dropWhile p⟩

def startsWith (c : Cursor) (word : String) : Bool := word.toList.isPrefixOf c.rest

def accept? (c : Cursor) (word : String) : Option Cursor :=
  if c.startsWith word then some (c.advance word.length) else none

def token? (c : Cursor) (word : String) : Option (Shape × Cursor) :=
  (c.accept? word).map fun d => (.token word c.pos d.pos, d)

def upTo? (c : Cursor) (word : String) : Option Cursor :=
  (Text.splitAtFirst word.toList c.rest).map fun p => c.advance p.1.length

def past? (c : Cursor) (word : String) : Option Cursor :=
  (c.upTo? word).map fun d => d.advance word.length

def toLineEnd (c : Cursor) : Cursor := c.skipWhile (· != '\n')

end Cursor
end ProjectIndex
