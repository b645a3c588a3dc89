import ProjectIndex.Domain.Literal
import ProjectIndex.Domain.Stores
import ProjectIndex.Tree.Pattern

/-! The configuration fields of a theme: the members of `config.fields` that hold an object. -/
namespace ProjectIndex

structure ThemeField where
  key : String
  label : List (String × String)
  fieldType : Option String
  value : Option String
  editable : Bool
  block : Option String
  order : Option Int
  scss : Bool
  path : String
  line : Nat
deriving DecidableEq, Inhabited, Repr

namespace Theme

def member (key : String) (parent : Pattern) : Pattern :=
  .all [.kind "pair",
    .hasChild (.all [.kind "string", .text ("\"" ++ key ++ "\"")]),
    .hasChild (.kind "object"),
    .ancestor parent 2]

def field : Pattern :=
  .all [.kind "pair", .hasChild (.kind "object"),
    .ancestor (member "fields" (member "config" (.kind "document"))) 2]

def signedNumber? (text : List Char) : Option Int :=
  let (negative, digits) :=
    match text with
    | '-' :: ds => (true, ds)
    | '+' :: ds => (false, ds)
    | ds => (false, ds)
  if digits.isEmpty || !digits.all Char.isDigit then none
  else
    let n : Nat := digits.foldl (fun v d => v * 10 + (d.toNat - '0'.toNat)) 0
    if negative then if n ≤ 1 <<< 63 then some (-(n : Int)) else none
    else if n < 1 <<< 63 then some n else none

variable (t : SyntaxTree) (src : Source)

def pairs (object : NodeId) : List (String × NodeId) :=
  ((t.namedChildren object).filter fun n => t.kind n == "pair").filterMap fun pair => do
    let key ← (t.namedChild? pair 0).filter fun k => t.kind k == "string"
    let value ← t.namedChild? pair 1
    some (stringValue t src key, value)

def putSorted (key value : String) : List (String × String) → List (String × String)
  | [] => [(key, value)]
  | (k, v) :: rest =>
    if key = k then (key, value) :: rest
    else if key < k then (key, value) :: (k, v) :: rest
    else (k, v) :: putSorted key value rest

def labels (object : NodeId) : List (String × String) :=
  ((pairs t src object).filter fun p => t.kind p.2 == "string").foldl
    (fun ls p => putSorted p.1 (stringValue t src p.2) ls) []

/-- Takes over one option of a field; options of another name or shape change nothing. -/
def withOption (f : ThemeField) (option : String × NodeId) : ThemeField :=
  match option.1, t.kind option.2 with
  | "label", "object" => { f with label := labels t src option.2 }
  | "type", "string" => { f with fieldType := some (stringValue t src option.2) }
  | "value", "string" => { f with value := some (stringValue t src option.2) }
  | "block", "string" => { f with block := some (stringValue t src option.2) }
  | "editable", "true" => { f with editable := true }
  | "editable", "false" => { f with editable := false }
  | "scss", "true" => { f with scss := true }
  | "scss", "false" => { f with scss := false }
  | "order", "number" => { f with order := signedNumber? (t.text src option.2) }
  | _, _ => f

def field? (p : Path) (pair : NodeId) : Option (String × ThemeField) := do
  let name ← t.namedChild? pair 0
  let options ← t.namedChild? pair 1
  let key := stringValue t src name
  let start : ThemeField :=
    { key, label := [], fieldType := none, value := none, editable := false, block := none
      order := none, scss := true, path := p.toString, line := t.line pair }
  some (key, (pairs t src options).foldl (withOption t src) start)

def extract (p : Path) : FileFacts ThemeField :=
  (field.findAll t src t.root).filterMap (field? t src p)

def accepts (p : Path) : Bool := p.fileName? == some "theme.json".toList

def indexer : Indexer (FactStore ThemeField) :=
  FactStore.indexer "theme.config" accepts fun _ p t src => .ok (extract t src p)

end Theme
end ProjectIndex
