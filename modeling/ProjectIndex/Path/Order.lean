import ProjectIndex.Path.Basic

/-!
Paths compare component by component: the root first, then `.`, then `..`, then names by code point.
So `a/x` comes before `a-b/x`, and `b//c` is the same place as `b/c`.
-/
namespace ProjectIndex.Path

def Component.rank : Component → Nat
  | .root => 0
  | .current => 1
  | .parent => 2
  | .normal _ => 3

def Component.compare (a b : Component) : Ordering :=
  match a, b with
  | .normal x, .normal y => List.compareLex Ord.compare x y
  | _, _ => Ord.compare a.rank b.rank

def compare (p q : Path) : Ordering := List.compareLex Component.compare p.components q.components

/-- Whether two spellings have the same components. -/
def same (p q : Path) : Bool := p.components == q.components

def before (p q : Path) : Bool := (compare p q).isLE

def sort (ps : List Path) : List Path := ps.mergeSort before

/-- Keeps the first of each run of neighbours that name the same place. -/
def dedup : List Path → List Path
  | [] => []
  | p :: ps =>
    match dedup ps with
    | [] => [p]
    | q :: qs => if same p q then p :: qs else p :: q :: qs

def componentsBelow? : List Component → List Component → Option (List Component)
  | [], cs => some cs
  | _ :: _, [] => none
  | r :: rs, c :: cs => if r = c then componentsBelow? rs cs else none

/-- The components of `p` below `root`, or all of them when it lies elsewhere. -/
def relativeComponents (root p : Path) : List Component :=
  (componentsBelow? root.components p.components).getD p.components

end ProjectIndex.Path
