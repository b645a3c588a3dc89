import ProjectIndex.Digest.Sha256
import ProjectIndex.Domain.Literal
import ProjectIndex.Domain.Templates.Marker
import ProjectIndex.Domain.Templates.Reference
import ProjectIndex.Path.Basic
import ProjectIndex.Tree.Pattern

/-! What is known of a template: what it extends, and its blocks with their hashes and markers. -/
namespace ProjectIndex

structure TemplateBlock where
  name : String
  line : Nat
  hash : String
  marker : Option VersionMarker
deriving DecidableEq, Inhabited, Repr

structure TemplateFile where
  path : String
  relativePath : String
  bundleName : String
  parent : Option String
  parentLine : Option Nat
  blocks : List TemplateBlock
deriving DecidableEq, Inhabited, Repr

structure BlockHash where
  name : String
  relativePath : String
  absolutePath : String
  hash : String
  line : Nat
deriving DecidableEq, Inhabited, Repr

namespace Templates

def namedBlock : Pattern := .all [.kind "block", .hasChild (.kind "identifier")]

/-- A tag at top level that names the template to extend. -/
def extendsTag : Pattern :=
  .all [.kind "tag", .ancestor (.kind "template") 1,
    .hasChild (.all [.kind "name", .anyText ["extends", "sw_extends"]]),
    .hasChild (.kind "string")]

variable (t : SyntaxTree) (src : Source)

/-- Goes back over at most `n` siblings to the nearest comment that mentions a marker, unless a block
comes first. -/
def markerBefore : Nat → NodeId → Option VersionMarker
  | 0, _ => none
  | n + 1, i =>
    match t.prevNamedSibling? i with
    | none => none
    | some p =>
      if t.kind p == "block" then none
      else if t.kind p == "comment" && Text.contains (t.text src p) "shopware-block:".toList then
        marker? (t.text src p) (t.line p)
      else markerBefore n p

def block? (i : NodeId) : Option TemplateBlock :=
  (t.childOfKind? i "identifier").map fun name =>
    { name := textString t src name
      line := t.line name
      hash := Digest.sha256Text (t.text src i)
      marker := markerBefore t src t.size i }

def distinctBlocks : List TemplateBlock → List TemplateBlock
  | [] => []
  | b :: bs => b :: (distinctBlocks bs).filter fun c => c.name != b.name

def record (p : Path) : TemplateFile :=
  let tag := extendsTag.findFirst? t src t.root
  let target := tag.bind fun i => t.childOfKind? i "string"
  { path := p.toString
    relativePath := String.ofList (relativePath p.slashed)
    bundleName := String.ofList (bundleName p.slashed)
    parent := target.map fun i => String.ofList (unquote (t.text src i))
    parentLine := if target.isSome then tag.map t.line else none
    blocks := distinctBlocks ((namedBlock.findAll t src t.root).filterMap (block? t src)) }

def blockFacts (f : TemplateFile) : List (String × BlockHash) :=
  f.blocks.map fun b => (b.name, ⟨b.name, f.relativePath, f.path, b.hash, b.line⟩)

end Templates
end ProjectIndex
