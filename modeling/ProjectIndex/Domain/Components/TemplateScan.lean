import ProjectIndex.Domain.Components.Record
import ProjectIndex.Text.Blank
import ProjectIndex.Text.Scan
import ProjectIndex.Text.Word

/-! The slots and blocks of a component's template, found line by line. -/
namespace ProjectIndex.Components

/-- `name="value"` behind at least one blank, with either quote at either end. -/
def slotName? (s : List Char) : Option (List Char × List Char) := do
  let (_, s) ← Text.run? Text.isBlank s
  let s ← Text.dropStart? "name=".toList s
  let (_, s) ← quoteMark? s
  let (value, s) ← Text.run? (fun c => !isQuoteMark c) s
  let (_, s) ← quoteMark? s
  some (value, s)
where
  isQuoteMark (c : Char) : Bool := c == '"' || c == '\''
  quoteMark? : List Char → Option (Char × List Char)
    | c :: s => if isQuoteMark c then some (c, s) else none
    | [] => none

def pastTag? (s : List Char) : Option (List Char) :=
  match s.dropWhile (· != '>') with
  | _ :: rest => some rest
  | [] => none

/-- A slot tag at the head of a text. A name counts only as the first attribute; a tag that does not
end behind its name is read without one. -/
def slotAt (s : List Char) : Option (List Char × List Char) := do
  let s ← Text.dropStart? "<slot".toList s
  let named := (slotName? s).bind fun (value, rest) => (pastTag? rest).map fun r => (value, r)
  match named with
  | some found => some found
  | none => (pastTag? s).map fun r => ("default".toList, r)

def blockAt (s : List Char) : Option (List Char × List Char) := do
  let s ← Text.dropStart? ['\x7b', '%'] s
  let s ← Text.dropStart? "block".toList (s.dropWhile Text.isBlank)
  let (_, s) ← Text.run? Text.isBlank s
  let (name, s) ← Text.run? Text.isWord s
  let s ← Text.dropStart? ['%', '\x7d'] (s.dropWhile Text.isBlank)
  some (name, s)

def distinctPlaces : List NamedPlace → List NamedPlace
  | [] => []
  | p :: ps => p :: (distinctPlaces ps).filter fun q => q.name != p.name

/-- The places a reader finds in a template, each name once, with one-based lines. -/
def places (matchAt : List Char → Option (List Char × List Char)) (content : List Char) :
    List NamedPlace :=
  distinctPlaces ((Text.lines content).zipIdx.flatMap fun (line, i) =>
    (Text.scanAll matchAt line).map fun name => ⟨String.ofList name, i + 1⟩)

def slotsOf (content : List Char) : List NamedPlace := places slotAt content

def blocksOf (content : List Char) : List NamedPlace := places blockAt content

end ProjectIndex.Components
