import ProjectIndex.Domain.Stores
import ProjectIndex.Domain.XmlElement

/-! Apps, as declared by the `meta` block of their manifest. -/
namespace ProjectIndex

structure Extension where
  name : String := ""
  label : String := ""
  description : String := ""
  author : String := ""
  copyright : String := ""
  version : String := ""
  license : String := ""
  path : String := ""
deriving DecidableEq, Inhabited, Repr

def Extension.viewsPath (e : Extension) : Path :=
  (Path.ofString e.path).join (Path.ofString "src/Resources/views")

namespace Extensions

open XmlElement

def manifestFile : List Char := "manifest.xml".toList

def testDirs : List (List Char) :=
  ["tests", "test", "fixtures", "_fixture", "_fixtures"].map String.toList

variable (t : SyntaxTree) (src : Source)

structure Draft where
  extension : Extension := {}
  localized : Option String := none

def withElement (d : Draft) (e : NodeId) : Draft :=
  let value := textContent t src e
  let x := d.extension
  match name? t src e with
  | some "name" => { d with extension := { x with name := value } }
  | some "label" =>
    if (attribute? t src e "lang").isSome then { d with localized := d.localized.or (some value) }
    else { d with extension := { x with label := value } }
  | some "description" =>
    if x.description == "" then { d with extension := { x with description := value } } else d
  | some "author" => { d with extension := { x with author := value } }
  | some "copyright" => { d with extension := { x with copyright := value } }
  | some "version" => { d with extension := { x with version := value } }
  | some "license" => { d with extension := { x with license := value } }
  | _ => d

/-- The app of a manifest document. A label for some language stands in for a missing one. -/
def manifest? : Option Extension := do
  let root ← root? t src "manifest"
  let block ← (children t root).find? fun e => name? t src e == some "meta"
  let d := (children t block).foldl (withElement t src) {}
  some (if d.extension.label == "" then { d.extension with label := d.localized.getD "" }
    else d.extension)

/-- A manifest counts unless some part of its path is a test directory. -/
def accepts (p : Path) : Bool :=
  p.fileName? == some manifestFile &&
    !p.components.any fun
      | .normal name => testDirs.contains (Text.lowerAscii name)
      | _ => false

def extract (p : Path) : FileFacts Extension :=
  match manifest? t src with
  | some x =>
    if x.name == "" then []
    else [(x.name, { x with path := ((p.parent?.map Path.toString).getD "") })]
  | none => []

def indexer : Indexer (FactStore Extension) :=
  FactStore.indexer "extensions" accepts fun _ p t src => .ok (extract t src p)

end Extensions
end ProjectIndex
