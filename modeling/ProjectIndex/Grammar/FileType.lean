import ProjectIndex.Path.Basic

/-! The file types with a grammar, told apart by extension. -/
namespace ProjectIndex

inductive FileType where
  | twig
  | javaScript
  | typeScript
  | json
  | xml
deriving DecidableEq, Inhabited, Repr

namespace FileType

def displayName : FileType → String
  | .twig => "Twig"
  | .javaScript => "JavaScript"
  | .typeScript => "TypeScript"
  | .json => "JSON"
  | .xml => "XML"

def tag : FileType → String
  | .twig => "twig"
  | .javaScript => "javascript"
  | .typeScript => "typescript"
  | .json => "json"
  | .xml => "xml"

def all : List FileType := [.twig, .javaScript, .typeScript, .json, .xml]

def ofTag? (s : String) : Option FileType := all.find? fun t => t.tag == s

/-- Templates are cut into segments; the other types are read by a grammar of nested rules. -/
def isTemplate (t : FileType) : Bool := t == .twig

/-- The type of an extension. ASCII lower case decides, since no other letter has one of the
extensions' letters as its lower-case form. -/
def ofExtension? (ext : List Char) : Option FileType :=
  match String.ofList (Text.lowerAscii ext) with
  | "twig" => some .twig
  | "js" => some .javaScript
  | "mjs" => some .javaScript
  | "cjs" => some .javaScript
  | "ts" => some .typeScript
  | "json" => some .json
  | "xml" => some .xml
  | _ => none

def ofPath? (p : Path) : Option FileType := p.extension?.bind ofExtension?

end FileType
end ProjectIndex
