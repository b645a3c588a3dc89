import ProjectIndex.Tree.Builder

/-! Trees as nested values, and the replay of such a value through the builder. -/
namespace ProjectIndex

/-- A node with its range, and its children if it was opened rather than added as a leaf. -/
inductive Shape where
  | leaf (kind : String) (named error : Bool) (start stop : Nat)
  | node (kind : String) (named error : Bool) (start stop : Nat) (children : List Shape)
deriving Inhabited, Repr

namespace Shape

def start : Shape → Nat
  | .leaf _ _ _ start _ => start
  | .node _ _ _ start _ _ => start

def stop : Shape → Nat
  | .leaf _ _ _ _ stop => stop
  | .node _ _ _ _ stop _ => stop

def kind : Shape → String
  | .leaf kind _ _ _ _ => kind
  | .node kind _ _ _ _ _ => kind

def children : Shape → List Shape
  | .leaf .. => []
  | .node _ _ _ _ _ children => children

def token (kind : String) (start stop : Nat) : Shape := .leaf kind false false start stop

def named (kind : String) (start stop : Nat) : Shape := .leaf kind true false start stop

/-- A named node that spans its children; there must be one. -/
def spanning (kind : String) (children : List Shape) : Shape :=
  .node kind true false ((children.head?.map Shape.start).getD 0)
    ((children.getLast?.map Shape.stop).getD 0) children

mutual

def addTo (b : TreeBuilder) : Shape → TreeBuilder
  | .leaf kind named error start stop =>
    let b := b.leaf kind named start stop
    if error then b.markError b.lastId else b
  | .node kind named error start stop children =>
    let b := b.openNode kind named start
    let b := if error then b.markError b.lastId else b
    (addAllTo b children).close stop

def addAllTo (b : TreeBuilder) : List Shape → TreeBuilder
  | [] => b
  | s :: rest => addAllTo (addTo b s) rest

end

def build (src : Source) (s : Shape) : SyntaxTree := (s.addTo (TreeBuilder.new src)).finish

end Shape
end ProjectIndex
