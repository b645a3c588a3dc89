import ProjectIndex.Domain.Composer
import ProjectIndex.Domain.Extensions
import ProjectIndex.Grammar.Parse

/-!
Configuration fields of plugins and apps. A field is known by its namespace and its name. The
namespace comes from the nearest directory above with a `composer.json` or a manifest: the plugin's
class without its namespace and `.config`, or the app's name. Otherwise it is `core` and the file's
stem.
-/
namespace ProjectIndex

structure ConfigEntry where
  scope : String
  name : String
  label : String
  fieldType : Option String
  component : Option String
  card : Option String
  path : String
  line : Nat
deriving DecidableEq, Inhabited, Repr

def ConfigEntry.qualifiedName (e : ConfigEntry) : String := e.scope ++ "." ++ e.name

namespace SystemConfig

open XmlElement

def shortName (className : List Char) : List Char :=
  (className.reverse.takeWhile (· != '\\')).reverse

/-- The namespace a directory gives to the files below it, if it decides. -/
def namespaceOf? (files : FileTree) (fallback : String) (dir : Path) :
    Option (Except Failure String) :=
  let composer := dir.join (Path.ofString "composer.json")
  let manifest := dir.join ⟨Extensions.manifestFile⟩
  if files.isFile composer then
    some (match files.read composer with
      | .error e => .error (.io e)
      | .ok bytes =>
        match Composer.pluginClass bytes with
        | .error e => .error e
        | .ok c =>
          let plugin := shortName c
          .ok (if plugin.isEmpty then fallback else String.ofList plugin ++ ".config"))
  else if files.isFile manifest then
    some (match files.readText manifest with
      | .error e => .error (.io e)
      | .ok src =>
        match parsePath manifest src with
        | .error e => .error e
        | .ok t =>
          let name := ((Extensions.manifest? t src).map Extension.name).getD ""
          .ok (if name == "" then fallback else name))
  else none

def namespaceFor (files : FileTree) (p : Path) : Except Failure String :=
  let fallback := "core." ++ String.ofList (p.stem?.getD [])
  (p.ancestors.findSome? (namespaceOf? files fallback)).getD (.ok fallback)

def field : Pattern := named ["input-field", "component"]

variable (t : SyntaxTree) (src : Source)

def firstChildText? (e : NodeId) (names : List String) : Option String :=
  (((children t e).find? fun c => (name? t src c).any names.contains).map
    (textContent t src)).filter (· != "")

def plainChildText? (e : NodeId) (name : String) : Option String :=
  ((children t e).find? fun c =>
    name? t src c == some name && (attribute? t src c "lang").isNone).map (textContent t src)

def cardTitle? (e : NodeId) : Option String :=
  ((t.ancestors e).find? fun a => t.kind a == "element" && name? t src a == some "card").bind
    fun card => plainChildText? t src card "title"

def fieldRecord? (scope : String) (p : Path) (e : NodeId) : Option (String × ConfigEntry) := do
  let name ← firstChildText? t src e ["name", "n"]
  let isComponent := name? t src e == some "component"
  let entry : ConfigEntry :=
    { scope
      name
      label := (plainChildText? t src e "label").getD ""
      fieldType := if isComponent then none else attribute? t src e "type"
      component := if isComponent then attribute? t src e "name" else none
      card := cardTitle? t src e
      path := p.toString
      line := t.line e }
  some (entry.qualifiedName, entry)

def schema : List Char := "SystemConfig/Schema/config.xsd".toList

/-- The fields of a document that mentions the schema; any other has none. -/
def extract (files : FileTree) (p : Path) : Except Failure (FileFacts ConfigEntry) :=
  if Text.contains src schema then
    (namespaceFor files p).map fun scope =>
      (field.findAll t src t.root).filterMap (fieldRecord? t src scope p)
  else .ok []

def accepts (p : Path) : Bool :=
  let slashed := p.slashed
  Text.endsWith slashed ".xml".toList && !Text.contains slashed "/_fixtures/".toList &&
    !Text.contains slashed "/_fixture/".toList

def indexer : Indexer (FactStore ConfigEntry) :=
  FactStore.indexer "system.config" accepts fun files p t src => extract t src files p

end SystemConfig
end ProjectIndex
