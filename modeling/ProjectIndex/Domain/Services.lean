import ProjectIndex.Domain.Stores
import ProjectIndex.Domain.XmlElement

/-!
Service containers. A container document defines services and aliases directly inside `container` or
`services`, and parameters directly inside `container` or `parameters`.
-/
namespace ProjectIndex

structure Service where
  id : String
  className : String
  aliasTarget : Option String
  tags : List String
  path : String
  line : Nat
deriving DecidableEq, Inhabited, Repr

structure Parameter where
  name : String
  value : String
  path : String
  line : Nat
deriving DecidableEq, Inhabited, Repr

abbrev ServiceStores := StorePair Service Parameter

namespace Services

open XmlElement

def definition : Pattern := childNamed ["service", "alias"] ["container", "services"]

def parameter : Pattern := childNamed ["parameter"] ["container", "parameters"]

variable (path : Path) (t : SyntaxTree) (src : Source)

/-- A service needs an id; ids with a space belong to inline arguments. -/
def service? (e : NodeId) : Option (String × Service) := do
  let id ← attribute? t src e "id"
  if id.toList.contains ' ' then none
  else
    let tags := ((children t e).filter fun c => name? t src c == some "tag").filterMap fun c =>
      attribute? t src c "name"
    some (id,
      { id
        className := (attribute? t src e "class").getD id
        aliasTarget := attribute? t src e "alias"
        tags
        path := path.toString
        line := t.line e })

def alias? (e : NodeId) : Option (String × Service) := do
  let id ← attribute? t src e "id"
  let target ← attribute? t src e "service"
  some (id,
    { id
      className := id
      aliasTarget := some target
      tags := []
      path := path.toString
      line := t.line e })

def definition? (e : NodeId) : Option (String × Service) :=
  match name? t src e with
  | some "service" => service? path t src e
  | some "alias" => alias? path t src e
  | _ => none

/-- The value of a parameter: a reference to a service, its `value`, or its content. -/
def parameterValue (e : NodeId) : String :=
  if attribute? t src e "type" == some "service" then "@" ++ (attribute? t src e "id").getD ""
  else (attribute? t src e "value").getD (textContent t src e)

def parameter? (e : NodeId) : Option (String × Parameter) := do
  let name ← attribute? t src e "key"
  some (name,
    { name
      value := parameterValue t src e
      path := path.toString
      line := t.line e })

def extract : FileFacts Service × FileFacts Parameter :=
  match root? t src "container" with
  | some container =>
    ((definition.findAll t src container).filterMap (definition? path t src),
      (parameter.findAll t src container).filterMap (parameter? path t src))
  | none => ([], [])

def accepts (p : Path) : Bool :=
  match p.extension? with
  | some ext => Text.lowerAscii ext == "xml".toList
  | none => false

def indexer : Indexer ServiceStores :=
  StorePair.indexer "symfony.services" accepts fun _ p t src s => s.save p (extract p t src)

def emptyStores : ServiceStores := ⟨.new "services", .new "parameters"⟩

end Services
end ProjectIndex
