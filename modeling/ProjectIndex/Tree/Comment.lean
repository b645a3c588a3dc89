import ProjectIndex.Tree.Shape

/-!
Comments in a tree. A grammar reads a source as if its comments were blanks; each comment then
becomes a child of the innermost node that has a token on either side of it.
-/
namespace ProjectIndex.Shape

def encloses (s c : Shape) : Bool := s.start < c.start && c.stop < s.stop

mutual

def insertBelow (c : Shape) : Shape → Shape
  | .leaf kind named error start stop => .leaf kind named error start stop
  | .node kind named error start stop children =>
    .node kind named error start stop (insertAmong c children)

/-- Puts a comment among siblings, or below the one that encloses it. A sibling that ends with the
comment holds it already. -/
def insertAmong (c : Shape) : List Shape → List Shape
  | [] => [c]
  | s :: rest =>
    if c.stop ≤ s.start then c :: s :: rest
    else if s.start ≤ c.start && c.stop == s.stop then s :: rest
    else if s.encloses c then insertBelow c s :: rest
    else s :: insertAmong c rest

end

def withComments (comments children : List Shape) : List Shape :=
  comments.foldl (fun cs c => insertAmong c cs) children

def rootSpanning (kind : String) (src : Source) (children : List Shape) : Shape :=
  let stop := Text.byteLength src
  .node kind true false ((children.head?.map Shape.start).getD stop) stop children

def malformed (src : Source) : Shape := .leaf "ERROR" true true 0 (Text.byteLength src)

end ProjectIndex.Shape
