import ProjectIndex.Domain.Literal
import ProjectIndex.Tree.Pattern

/-! Elements and attributes of an XML tree. -/
namespace ProjectIndex.XmlElement

def named (names : List String) : Pattern :=
  .all [.kind "element",
    .hasChild (.all [.anyKind ["STag", "EmptyElemTag"],
      .hasChild (.all [.kind "Name", .anyText names])])]

/-- An element of one of the given names directly inside an element of one of the given parents:
content lies between the two. -/
def childNamed (names parents : List String) : Pattern :=
  .all [named names, .ancestor (named parents) 2]

def rootNamed (name : String) : Pattern :=
  .all [named [name], .ancestor (.kind "document") 1]

variable (t : SyntaxTree) (src : Source)

def root? (name : String) : Option NodeId := (rootNamed name).findFirst? t src t.root

def startTag? (element : NodeId) : Option NodeId :=
  (t.namedChild? element 0).filter fun tag =>
    t.kind tag == "STag" || t.kind tag == "EmptyElemTag"

def name? (element : NodeId) : Option String :=
  ((startTag? t element).bind fun tag => t.childOfKind? tag "Name").map (textString t src)

def isQuoteMark (c : Char) : Bool := c == '"' || c == '\''

/-- The value of the first attribute of a name, without the quotes at its ends. -/
def attribute? (element : NodeId) (name : String) : Option String := do
  let tag ← startTag? t element
  let attr ← ((t.namedChildren tag).filter fun n => t.kind n == "Attribute").find? fun a =>
    (t.childOfKind? a "Name").any fun n => t.text src n == name.toList
  let value ← t.childOfKind? attr "AttValue"
  some (String.ofList (Text.trimBoth isQuoteMark (t.text src value)))

def children (element : NodeId) : List NodeId :=
  match t.childOfKind? element "content" with
  | some content => (t.namedChildren content).filter fun n => t.kind n == "element"
  | none => []

def textContent (element : NodeId) : String :=
  match t.childOfKind? element "content" with
  | some content => String.ofList (Text.trim (t.text src content))
  | none => ""

end ProjectIndex.XmlElement
