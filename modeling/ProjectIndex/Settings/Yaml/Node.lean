import ProjectIndex.Settings.Yaml.Token

/-!
The nodes of a YAML document. A node may carry an anchor, and a reference stands for the node with an
anchor. Nodes are read with the names of their anchors; the names are then numbered in the order in
which the nodes begin.
-/
namespace ProjectIndex.Yaml

inductive Node (α : Type) where
  | scalar (anchor : Option α) (tag : Option TagName) (style : Style) (text : List Char)
  | list (anchor : Option α) (items : List (Node α))
  | map (anchor : Option α) (entries : List (Node α × Node α))
  | reference (anchor : α)
deriving Inhabited, Repr

namespace Node

def absent {α : Type} : Node α := .scalar none none .plain []

abbrev Name := List Char

abbrev Reader (β : Type) := List Token → Option (β × List Token)

structure Properties where
  anchor : Option Name := none
  tag : Option (List Char × TagName) := none

def properties : List Token → Properties × List Token
  | .anchor a :: .tag h s :: rest => (⟨some a, some (h, s)⟩, rest)
  | .tag h s :: .anchor a :: rest => (⟨some a, some (h, s)⟩, rest)
  | .anchor a :: rest => ({ anchor := some a }, rest)
  | .tag h s :: rest => ({ tag := some (h, s) }, rest)
  | rest => ({}, rest)

abbrev Handles := List (List Char × TagName)

def tagName? (handles : Handles) : List Char × TagName → Option TagName
  | ([], suffix) => some suffix
  | (handle, suffix) => (handles.lookup handle).map (· ++ suffix)

/-- A tag that is a single exclamation mark says nothing about a scalar. -/
def scalarTag (tag : Option TagName) : Option TagName :=
  tag.filter (· != Scanner.asBytes ['!'])

def unlessAt (stops : List Token) (value : Reader (Node Name)) : Reader (Node Name)
  | t :: rest => if stops.contains t then some (absent, t :: rest) else value (t :: rest)
  | [] => value []

def blockItems (value : Reader (Node Name)) : Nat → Reader (List (Node Name))
  | 0, _ => none
  | fuel + 1, ts =>
    match ts with
    | .dash :: rest => do
      let (item, rest) ← unlessAt [.dash, .dedent] value rest
      let (items, rest) ← blockItems value fuel rest
      some (item :: items, rest)
    | .dedent :: rest => some ([], rest)
    | _ => none

def levelItems (value : Reader (Node Name)) : Nat → Reader (List (Node Name))
  | 0, _ => none
  | fuel + 1, ts =>
    match ts with
    | .dash :: rest => do
      let (item, rest) ← unlessAt [.dash, .key, .colon, .dedent] value rest
      let (items, rest) ← levelItems value fuel rest
      some (item :: items, rest)
    | _ => some ([], ts)

def behindColon (stops : List Token) (value : Reader (Node Name)) : Reader (Node Name)
  | .colon :: rest => unlessAt stops value rest
  | ts => some (absent, ts)

def blockEntries (value : Reader (Node Name)) : Nat → Reader (List (Node Name × Node Name))
  | 0, _ => none
  | fuel + 1, ts =>
    let stops := [.key, .colon, .dedent]
    match ts with
    | .key :: rest => do
      let (key, rest) ← unlessAt stops value rest
      let (v, rest) ← behindColon stops value rest
      let (entries, rest) ← blockEntries value fuel rest
      some ((key, v) :: entries, rest)
    | .dedent :: rest => some ([], rest)
    | _ => none

def memberStart (first : Bool) : List Token → Option (List Token)
  | .comma :: rest => if first then some (.comma :: rest) else some rest
  | ts => if first then some ts else none

/-- The pair that a key inside a list begins. A key that is missing takes the token behind its mark
with it. -/
def listPair (value : Reader (Node Name)) (ts : List Token) : Option (Node Name × List Token) := do
  let (key, rest) ← match ts with
    | t :: rest =>
      if [Token.colon, .comma, .listClose].contains t then some (absent, rest) else value ts
    | [] => none
  let (v, rest) ← behindColon [.comma, .listClose] value rest
  some (.map none [(key, v)], rest)

def listMembers (value : Reader (Node Name)) : Nat → Bool → Reader (List (Node Name))
  | 0, _, _ => none
  | fuel + 1, first, ts =>
    match ts with
    | .listClose :: rest => some ([], rest)
    | _ => do
      match ← memberStart first ts with
      | .listClose :: rest => some ([], rest)
      | .key :: rest =>
        let (item, rest) ← listPair value rest
        let (items, rest) ← listMembers value fuel false rest
        some (item :: items, rest)
      | ts =>
        let (item, rest) ← value ts
        let (items, rest) ← listMembers value fuel false rest
        some (item :: items, rest)

def mapMembers (value : Reader (Node Name)) :
    Nat → Bool → Reader (List (Node Name × Node Name))
  | 0, _, _ => none
  | fuel + 1, first, ts =>
    match ts with
    | .mapClose :: rest => some ([], rest)
    | _ => do
      match ← memberStart first ts with
      | .mapClose :: rest => some ([], rest)
      | .key :: rest =>
        let (key, rest) ← unlessAt [.colon, .comma, .mapClose] value rest
        let (v, rest) ← behindColon [.comma, .mapClose] value rest
        let (entries, rest) ← mapMembers value fuel false rest
        some ((key, v) :: entries, rest)
      | ts =>
        let (key, rest) ← value ts
        let (entries, rest) ← mapMembers value fuel false rest
        some ((key, absent) :: entries, rest)

inductive Position where
  | flow
  | block
  | entry
deriving DecidableEq, Inhabited, Repr

def read (handles : Handles) : Nat → Position → Reader (Node Name)
  | 0, _, _ => none
  | _ + 1, _, .reference name :: rest => some (.reference name, rest)
  | depth + 1, pos, ts => do
    let (p, ts) := properties ts
    let tag ← match p.tag with
      | some t => (tagName? handles t).map some
      | none => some none
    let fuel := ts.length + 1
    let list := fun (r : List (Node Name) × List Token) => (Node.list p.anchor r.1, r.2)
    let map := fun (r : List (Node Name × Node Name) × List Token) => (Node.map p.anchor r.1, r.2)
    match ts, pos with
    | .dash :: _, .entry => (levelItems (read handles depth .block) fuel ts).map list
    | .scalar style text :: rest, _ => some (.scalar p.anchor (scalarTag tag) style text, rest)
    | .listOpen :: rest, _ => (listMembers (read handles depth .flow) fuel true rest).map list
    | .mapOpen :: rest, _ => (mapMembers (read handles depth .flow) fuel true rest).map map
    | _, pos =>
      match ts, pos != .flow with
      | .indentedList :: rest, true => (blockItems (read handles depth .block) fuel rest).map list
      | .indentedMap :: rest, true => (blockEntries (read handles depth .entry) fuel rest).map map
      | ts, _ =>
        if p.anchor.isSome || p.tag.isSome then some (.scalar p.anchor tag .plain [], ts) else none

abbrev Numbers := List (Name × Nat)

def Numbers.define (ns : Numbers) (name : Name) : Numbers × Nat :=
  ((name, ns.length) :: ns.filter (·.1 != name), ns.length)

def numberAnchor (ns : Numbers) : Option Name → Numbers × Option Nat
  | none => (ns, none)
  | some name => ((ns.define name).1, some (ns.define name).2)

mutual

def number (ns : Numbers) : Node Name → Option (Node Nat × Numbers)
  | .scalar a tag style text =>
    let (ns, a) := numberAnchor ns a
    some (.scalar a tag style text, ns)
  | .list a items => do
    let (ns, a) := numberAnchor ns a
    let (items, ns) ← numberItems ns items
    some (.list a items, ns)
  | .map a entries => do
    let (ns, a) := numberAnchor ns a
    let (entries, ns) ← numberEntries ns entries
    some (.map a entries, ns)
  | .reference name => (ns.lookup name).map fun n => (.reference n, ns)

def numberItems (ns : Numbers) : List (Node Name) → Option (List (Node Nat) × Numbers)
  | [] => some ([], ns)
  | n :: rest => do
    let (m, ns) ← number ns n
    let (ms, ns) ← numberItems ns rest
    some (m :: ms, ns)

def numberEntries (ns : Numbers) :
    List (Node Name × Node Name) → Option (List (Node Nat × Node Nat) × Numbers)
  | [] => some ([], ns)
  | (k, v) :: rest => do
    let (k, ns) ← number ns k
    let (v, ns) ← number ns v
    let (es, ns) ← numberEntries ns rest
    some ((k, v) :: es, ns)

end

def anchor? : Node Nat → Option Nat
  | .scalar a _ _ _ => a
  | .list a _ => a
  | .map a _ => a
  | .reference _ => none

mutual

def anchored : Node Nat → List (Nat × Node Nat)
  | .scalar a tag style text => a.toList.map fun n => (n, .scalar a tag style text)
  | .list a items => a.toList.map (fun n => (n, .list a items)) ++ anchoredItems items
  | .map a entries => a.toList.map (fun n => (n, .map a entries)) ++ anchoredEntries entries
  | .reference _ => []

def anchoredItems : List (Node Nat) → List (Nat × Node Nat)
  | [] => []
  | n :: rest => anchored n ++ anchoredItems rest

def anchoredEntries : List (Node Nat × Node Nat) → List (Nat × Node Nat)
  | [] => []
  | (k, v) :: rest => anchored k ++ anchored v ++ anchoredEntries rest

end

end Node
end ProjectIndex.Yaml
