import ProjectIndex.Tree.Basic
import ProjectIndex.Text.Search

/-! Predicates on the nodes of a tree, and the search for the nodes that satisfy one. -/
namespace ProjectIndex

inductive Pattern where
  | kind (k : String)
  | anyKind (ks : List String)
  | text (s : String)
  | textStart (s : String)
  | textContains (s : String)
  | hasChild (p : Pattern)
  /-- Some node at most `depth` steps above satisfies the pattern. -/
  | ancestor (p : Pattern) (depth : Nat)
  | all (ps : List Pattern)
  | any (ps : List Pattern)
  | not (p : Pattern)
deriving Inhabited, Repr

namespace Pattern

def anyText (texts : List String) : Pattern := .any (texts.map .text)

mutual

def matchesNode (t : SyntaxTree) (src : Source) : Pattern → NodeId → Bool
  | .kind k, i => t.kind i == k
  | .anyKind ks, i => ks.any fun k => t.kind i == k
  | .text s, i => t.text src i == s.toList
  | .textStart s, i => s.toList.isPrefixOf (t.text src i)
  | .textContains s, i => Text.contains (t.text src i) s.toList
  | .hasChild p, i => (t.namedChildren i).any fun c => matchesNode t src p c
  | .ancestor p depth, i => ((t.ancestors i).take depth).any fun a => matchesNode t src p a
  | .all ps, i => matchesAll t src ps i
  | .any ps, i => matchesAny t src ps i
  | .not p, i => !matchesNode t src p i

def matchesAll (t : SyntaxTree) (src : Source) : List Pattern → NodeId → Bool
  | [], _ => true
  | p :: ps, i => matchesNode t src p i && matchesAll t src ps i

def matchesAny (t : SyntaxTree) (src : Source) : List Pattern → NodeId → Bool
  | [], _ => false
  | p :: ps, i => matchesNode t src p i || matchesAny t src ps i

end

def findFirst? (p : Pattern) (t : SyntaxTree) (src : Source) (i : NodeId) : Option NodeId :=
  (t.descendants i).find? (p.matchesNode t src)

def findAll (p : Pattern) (t : SyntaxTree) (src : Source) (i : NodeId) : List NodeId :=
  (t.descendants i).filter (p.matchesNode t src)

end Pattern
end ProjectIndex
