import ProjectIndex.Text.Bytes

/-!
Syntax trees. The nodes of a file stand in one array, in the order in which they were opened, and
refer to each other by position. Offsets and columns count bytes.
-/
namespace ProjectIndex

abbrev Source := List Char

structure Point where
  row : Nat
  column : Nat
deriving DecidableEq, Inhabited, Repr

def Point.line (p : Point) : Nat := p.row + 1

abbrev NodeId := Nat

/-- Named nodes carry meaning; the others are punctuation and keywords. -/
structure Node where
  kind : String
  named : Bool
  error : Bool
  startByte : Nat
  endByte : Nat
  startPoint : Point
  endPoint : Point
  parent : Option NodeId
  children : Array NodeId
deriving DecidableEq, Inhabited, Repr

structure SyntaxTree where
  nodes : Array Node
  root : NodeId
deriving DecidableEq, Inhabited, Repr

namespace SyntaxTree

variable (t : SyntaxTree)

def size : Nat := t.nodes.size

def hasError : Bool := t.nodes.any Node.error

def node (i : NodeId) : Node := t.nodes.getD i default

def kind (i : NodeId) : String := (t.node i).kind

def isNamed (i : NodeId) : Bool := (t.node i).named

/-- The source text a node covers; empty if its range does not fall on character boundaries. -/
def text (src : Source) (i : NodeId) : List Char :=
  Text.slice src (t.node i).startByte (t.node i).endByte

def line (i : NodeId) : Nat := (t.node i).startPoint.line

def parent? (i : NodeId) : Option NodeId := (t.node i).parent

def children (i : NodeId) : List NodeId := (t.node i).children.toList

def namedChildren (i : NodeId) : List NodeId := (t.children i).filter t.isNamed

def child? (i k : Nat) : Option NodeId := (t.children i)[k]?

def namedChild? (i k : Nat) : Option NodeId := (t.namedChildren i)[k]?

def childOfKind? (i : NodeId) (kind : String) : Option NodeId :=
  (t.children i).find? fun c => t.kind c == kind

/-- The nodes still to be visited behind `i`: its named children come on top of the stack. They are
pushed from the last to the first, so that the first lies uppermost. -/
def pushNamed (i : NodeId) (stack : List NodeId) : List NodeId :=
  ((t.children i).reverse.filter t.isNamed).foldl (fun stack c => c :: stack) stack

def visit : Nat → List NodeId → List NodeId
  | 0, _ => []
  | _ + 1, [] => []
  | steps + 1, i :: stack => i :: visit steps (t.pushNamed i stack)

/-- A node and its named descendants, in document order. No node is visited twice. -/
def descendants (i : NodeId) : List NodeId := t.visit t.size [i]

def descendantOfKind? (i : NodeId) (kind : String) : Option NodeId :=
  (t.descendants i).tail.find? fun d => t.kind d == kind

def ancestorsUpTo : Nat → NodeId → List NodeId
  | 0, _ => []
  | n + 1, i =>
    match t.parent? i with
    | none => []
    | some p => p :: ancestorsUpTo n p

def ancestors (i : NodeId) : List NodeId := t.ancestorsUpTo t.size i

/-- The named children of the parent, from the node on, less the node. -/
def nextNamedSibling? (i : NodeId) : Option NodeId :=
  (t.parent? i).bind fun p => ((t.namedChildren p).dropWhile (· != i))[1]?

def prevNamedSibling? (i : NodeId) : Option NodeId :=
  (t.parent? i).bind fun p => ((t.namedChildren p).takeWhile (· != i)).getLast?

def describe (i : NodeId) : String :=
  let n := t.node i
  n.kind ++ " [" ++ toString n.startPoint.row ++ ":" ++ toString n.startPoint.column ++ "-" ++
    toString n.endPoint.row ++ ":" ++ toString n.endPoint.column ++ "]"

end SyntaxTree
end ProjectIndex
