import ProjectIndex.Text.Blank
import ProjectIndex.Text.Scan
import ProjectIndex.Text.Word

/-! Version markers: comments that record which inherited block an override was made for. -/
namespace ProjectIndex

structure VersionMarker where
  hash : String
  version : String
  line : Nat
deriving DecidableEq, Inhabited, Repr

namespace Templates

def formatMarker (hash version : String) : String :=
  "\x7b# shopware-block: " ++ hash ++ "@" ++ version ++ " #\x7d\n"

def isHashChar (c : Char) : Bool := c.isDigit || ('a' ≤ c && c ≤ 'f')

def isVersionChar (c : Char) : Bool := Text.isWord c || c == '.' || c == '-'

def markerAt (s : List Char) : Option ((List Char × List Char) × List Char) := do
  let s ← Text.dropStart? ['\x7b', '#'] s
  let s ← Text.dropStart? "shopware-block:".toList (s.dropWhile Text.isBlank)
  let (hash, s) ← Text.run? isHashChar (s.dropWhile Text.isBlank)
  let s ← Text.dropStart? ['@'] s
  let (version, s) ← Text.run? isVersionChar s
  let s ← Text.dropStart? ['#', '\x7d'] (s.dropWhile Text.isBlank)
  some ((hash, version), s)

/-- The first marker in a comment. -/
def marker? (comment : List Char) (line : Nat) : Option VersionMarker :=
  (Text.scanAll markerAt comment).head?.map fun (hash, version) =>
    ⟨String.ofList hash, String.ofList version, line⟩

end Templates
end ProjectIndex
