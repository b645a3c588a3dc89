import ProjectIndex.Tree.Basic

/-!
Building a tree in document order. A new node becomes a child of the innermost open node, or of the
root once that is closed; the first node of all is the root. Points are computed from byte offsets
by the starts of the lines.
-/
namespace ProjectIndex

def lineStartsFrom (pos : Nat) : List Char → List Nat
  | [] => []
  | c :: s =>
    let next := pos + c.utf8Size
    if c = '\n' then next :: lineStartsFrom next s else lineStartsFrom next s

def lastStart (offset row start : Nat) : List Nat → Nat × Nat
  | [] => (row, start)
  | next :: rest => if next ≤ offset then lastStart offset (row + 1) next rest else (row, start)

structure TreeBuilder where
  lineStarts : List Nat
  sourceLength : Nat
  nodes : Array Node
  opened : List NodeId
  root : Option NodeId
deriving DecidableEq, Inhabited, Repr

namespace TreeBuilder

def new (src : Source) : TreeBuilder where
  lineStarts := lineStartsFrom 0 src
  sourceLength := Text.byteLength src
  nodes := #[]
  opened := []
  root := none

/-- The point of a byte offset; offsets past the end count as the end. -/
def pointAt (b : TreeBuilder) (offset : Nat) : Point :=
  let at_ := min offset b.sourceLength
  let (row, start) := lastStart at_ 0 0 b.lineStarts
  ⟨row, at_ - start⟩

def depth (b : TreeBuilder) : Nat := b.opened.length

def currentKind? (b : TreeBuilder) : Option String :=
  b.opened.head?.map fun i => (b.nodes.getD i default).kind

def setEnd (b : TreeBuilder) (i : NodeId) (stop : Nat) : TreeBuilder :=
  let point := b.pointAt stop
  { b with nodes := b.nodes.modify i fun n => { n with endByte := stop, endPoint := point } }

def attachment (b : TreeBuilder) : Option NodeId := b.opened.head? <|> b.root

/-- Makes `child` the last child of `p`, which then reaches at least to `stop`. -/
def adopt (b : TreeBuilder) (p child : NodeId) (stop : Nat) : TreeBuilder :=
  let b := { b with nodes := b.nodes.modify p fun n => { n with children := n.children.push child } }
  if (b.nodes.getD p default).endByte < stop then b.setEnd p stop else b

def push (b : TreeBuilder) (kind : String) (named : Bool) (start stop : Nat) : TreeBuilder :=
  let id := b.nodes.size
  let parent := b.attachment
  let n : Node := ⟨kind, named, false, start, stop, b.pointAt start, b.pointAt stop, parent, #[]⟩
  let b := { b with nodes := b.nodes.push n }
  match parent with
  | some p => b.adopt p id stop
  | none => { b with root := some id }

def lastId (b : TreeBuilder) : NodeId := b.nodes.size - 1

def openNode (b : TreeBuilder) (kind : String) (named : Bool) (start : Nat) : TreeBuilder :=
  let b := b.push kind named start start
  { b with opened := b.lastId :: b.opened }

def leaf (b : TreeBuilder) (kind : String) (named : Bool) (start stop : Nat) : TreeBuilder :=
  b.push kind named start stop

def close (b : TreeBuilder) (stop : Nat) : TreeBuilder :=
  match b.opened with
  | [] => b
  | i :: rest => { b with opened := rest }.setEnd i stop

def markError (b : TreeBuilder) (i : NodeId) : TreeBuilder :=
  { b with nodes := b.nodes.modify i fun n => { n with error := true } }

/-- Closes open nodes at the end of the source and marks them as errors, innermost first. -/
def closeUnfinished (b : TreeBuilder) : List NodeId → TreeBuilder
  | [] => { b with opened := [] }
  | i :: rest => closeUnfinished ((b.markError i).setEnd i b.sourceLength) rest

/-- Ends the construction. A tree without nodes becomes a single `document`. -/
def finish (b : TreeBuilder) : SyntaxTree :=
  let b := b.closeUnfinished b.opened
  match b.root with
  | some root => ⟨b.nodes, root⟩
  | none => ⟨(b.push "document" true 0 b.sourceLength).nodes, b.nodes.size⟩

end TreeBuilder
end ProjectIndex
