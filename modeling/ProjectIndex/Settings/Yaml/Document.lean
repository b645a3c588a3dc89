import ProjectIndex.Settings.Yaml.Node

/-!
A YAML document: its root, and the nodes that references stand for. Directives stand in front of an
explicit start; a source holds at most one document.
-/
namespace ProjectIndex.Yaml

structure Document where
  root : Node Nat
  anchors : List (Nat × Node Nat)
deriving Inhabited, Repr

namespace Document

def resolve (d : Document) : Node Nat → Node Nat
  | .reference n => (d.anchors.lookup n).getD .absent
  | node => node

def defaultHandles : Node.Handles :=
  [(['!'], Scanner.asBytes ['!']),
    (['!', '!'], Scanner.asBytes "tag:yaml.org,2002:".toList)]

/-- The directives in front of a document: at most one version, which must be 1.1 or 1.2, and every
handle once. -/
def directives? (versioned : Bool) (handles : Node.Handles) :
    List Token → Option (Node.Handles × List Token)
  | .version major minor :: rest =>
    if !versioned && major == 1 && (minor == 1 || minor == 2) then directives? true handles rest
    else none
  | .tagHandle handle expansion :: rest =>
    if (handles.lookup handle).isSome then none
    else directives? versioned (handles ++ [(handle, expansion)]) rest
  | ts => some (handles ++ defaultHandles, ts)

def startsExplicit : List Token → Bool
  | .version _ _ :: _ => true
  | .tagHandle _ _ :: _ => true
  | .documentStart :: _ => true
  | _ => false

def root? (ts : List Token) : Option (Node Node.Name × List Token) := do
  let depth := ts.length + 1
  match ts with
  | [] => some (.absent, [])
  | _ =>
    if startsExplicit ts then
      match ← directives? false [] ts with
      | (handles, .documentStart :: rest) =>
        if rest.isEmpty || startsExplicit rest || rest.head? == some .documentEnd then
          some (.absent, rest)
        else Node.read handles depth .block rest
      | _ => none
    else Node.read defaultHandles depth .block ts

def ofTokens? (ts : List Token) : Option Document := do
  let (root, rest) ← root? ts
  if rest.all (· == .documentEnd) then
    let (root, _) ← root.number []
    some ⟨root, root.anchored.reverse⟩
  else none

def parse? (src : List Char) : Option Document := (tokens? src).bind ofTokens?

end Document
end ProjectIndex.Yaml
