import ProjectIndex.Domain.Components.Definition
import ProjectIndex.Domain.Components.Merge
import ProjectIndex.Domain.Stores
import ProjectIndex.Tree.Pattern

/-!
Administration components as facts. A component is registered by a call with its options or with a
lazy import of them, or by a default export of wrapped options; a file with a default export of plain
options holds the definition for others. Registrations are kept by component name. Definitions are
kept by component name too, and those of plain exports by the path of their file.
-/
namespace ProjectIndex

abbrev ComponentStores := StorePair Component ComponentDefinition

namespace Components

def registration : Pattern :=
  .all [.kind "call_expression",
    .hasChild (.all [.kind "member_expression",
      .anyText ["Shopware.Component.register", "Shopware.Component.extend",
        "Component.register", "Component.extend"]])]

def wrappedExport : Pattern :=
  .all [.kind "export_statement",
    .hasChild (.all [.kind "call_expression",
      .hasChild (.all [.kind "member_expression",
        .anyText ["Shopware.Component.wrapComponentConfig", "Component.wrapComponentConfig"]])])]

abbrev Contribution := FileFacts Component × FileFacts ComponentDefinition

variable (files : FileTree) (file : Path) (template : Option (List Char))
variable (t : SyntaxTree) (src : Source)

def lazyImport? (arrow : NodeId) : Option (List Char) := do
  let call ← (t.descendants arrow).find? fun n =>
    t.kind n == "call_expression" && (t.childOfKind? n "import").isSome
  let s ← t.descendantOfKind? call "string"
  some (stringLiteral t src s)

def withOptions (c : Component) (options : Option NodeId) : Contribution :=
  match options with
  | none => ([(c.name, c)], [])
  | some o =>
    if t.kind o == "object" then
      let d := definition t src files file template o
      ([(c.name, { c with definitionPath := some file.toString }.withDefinition d)], [(c.name, d)])
    else if t.kind o == "arrow_function" then
      match lazyImport? t src o with
      | some specifier =>
        ([(c.name,
          { c with
            importPath := some (String.ofList specifier)
            definitionPath := some (resolveImport files file specifier).toString })], [])
      | none => ([(c.name, c)], [])
    else ([(c.name, c)], [])

/-- The contribution of one registering call; none unless its first argument is a string. -/
def registered? (call : NodeId) : Option Contribution := do
  let callee ← (t.namedChildren call).find? fun n => t.kind n == "member_expression"
  let list ← t.childOfKind? call "arguments"
  let args := (t.namedChildren list).filter fun n => t.kind n != "comment"
  let first ← args.head?.filter fun n => t.kind n == "string"
  let c : Component :=
    { name := stringValue t src first, filePath := file.toString, line := t.line call }
  if Text.endsWith (t.text src callee) ".extend".toList then
    let parent := (args[1]?.filter fun n => t.kind n == "string").map (stringValue t src)
    some (withOptions files file template t src { c with parentName := parent } args[2]?)
  else some (withOptions files file template t src c args[1]?)

/-- The name a file gives to its component: its stem, or its directory for an index. -/
def nameFromPath? : Option String := do
  let stem ← file.stem?
  if stem = "index".toList then
    let dir ← file.parent?
    (← dir.fileName?) |> String.ofList |> some
  else some (String.ofList stem)

def wrapped? : Option NodeId :=
  ((t.namedChildren t.root).filter fun n => (t.childOfKind? n "default").isSome).find? fun n =>
    wrappedExport.matchesNode t src n

def wrappedContribution (statement : NodeId) : Contribution :=
  let found : Option (String × NodeId) := do
    let name ← nameFromPath? file
    let call ← t.childOfKind? statement "call_expression"
    let list ← t.childOfKind? call "arguments"
    let object ← t.childOfKind? list "object"
    some (name, object)
  match found with
  | some (name, object) =>
    let d := definition t src files file template object
    let c : Component :=
      { name, filePath := file.toString, definitionPath := some file.toString
        line := t.line statement }
    ([(name, c.withDefinition d)], [(name, d)])
  | none => ([], [])

def exportedContribution : Contribution :=
  match wrapped? t src with
  | some statement => wrappedContribution files file template t src statement
  | none =>
    match exportedObject? t with
    | some object =>
      ([], [(String.ofList (definitionKey file.text), definition t src files file template object)])
    | none => ([], [])

def extract : Contribution :=
  let template := templateImport? t src
  let parts := (registration.findAll t src t.root).filterMap (registered? files file template t src)
    ++ [exportedContribution files file template t src]
  (parts.flatMap Prod.fst, parts.flatMap Prod.snd)

def accepts (p : Path) : Bool :=
  isScriptExtension p.extension? && Text.contains p.slashed administrationDir

def indexer : Indexer ComponentStores :=
  StorePair.indexer "admin.components" accepts fun files p t src s =>
    s.save p (extract files p t src)

def emptyStores : ComponentStores := ⟨.new "components", .new "component_definitions"⟩

variable (s : ComponentStores)

def definitionOf (path : String) : Except Failure (Option ComponentDefinition) :=
  (s.second.values (String.ofList (definitionKey path.toList))).map List.head?

def definitionByName (name : String) : Except Failure (Option ComponentDefinition) :=
  (s.second.values name).map List.head?

/-- The definition of a registration: that of its definition path; else, of those under its name, the
one from its own file or the first. -/
def definitionFor (byName : List ComponentDefinition) (c : Component) :
    Except Failure (Option ComponentDefinition) :=
  let named := (byName.find? fun d => d.filePath == c.filePath).or byName.head?
  match c.definitionPath with
  | none => .ok named
  | some path => (definitionOf s path).map fun d => d.or named

def completeAll (byName : List ComponentDefinition) :
    List Component → Except Failure (List Component)
  | [] => .ok []
  | c :: cs => do
    let d ← definitionFor s byName c
    let rest ← completeAll byName cs
    .ok ((match d with
      | some d => c.withDefinition d
      | none => c) :: rest)

def withDefinitions (name : String) : Except Failure (List Component) := do
  let cs ← s.first.values name
  let byName ← s.second.values name
  completeAll s byName cs

def resolve (name : String) : Except Failure (Option Component) :=
  (withDefinitions s name).map Component.merge?

end Components
end ProjectIndex
