import ProjectIndex.Domain.Components.Import
import ProjectIndex.Domain.Components.TemplateScan

/-! The options object of a component as a definition. -/
namespace ProjectIndex.Components

variable (t : SyntaxTree) (src : Source)

def keyName? (member : NodeId) : Option String :=
  (t.namedChild? member 0).bind fun key =>
    if t.kind key == "property_identifier" then some (textString t src key)
    else if t.kind key == "string" then some (stringValue t src key)
    else none

def pairsOf (object : NodeId) : List NodeId :=
  (t.namedChildren object).filter fun n => t.kind n == "pair"

def withPropOption (p : ComponentProp) (option : NodeId) : ComponentProp :=
  match t.namedChild? option 1 with
  | none => p
  | some value =>
    match keyName? t src option with
    | some "type" => { p with propType := some (textString t src value) }
    | some "required" => { p with required := t.kind value == "true" }
    | some "default" => { p with default := some (textString t src value) }
    | _ => p

def prop? (pair : NodeId) : Option ComponentProp := do
  let key ← t.namedChild? pair 0
  let name ← keyName? t src pair
  let p : ComponentProp := { name, line := t.line key }
  match t.namedChild? pair 1 with
  | some value =>
    if t.kind value == "identifier" then some { p with propType := some (textString t src value) }
    else if t.kind value == "object" then
      some ((pairsOf t value).foldl (withPropOption t src) p)
    else some p
  | none => some p

def strings (array : NodeId) : List NodeId :=
  (t.namedChildren array).filter fun n => t.kind n == "string"

def props (value : NodeId) : List ComponentProp :=
  if t.kind value == "array" then
    (strings t value).map fun s => { name := stringValue t src s, line := t.line s }
  else if t.kind value == "object" then (pairsOf t value).filterMap (prop? t src)
  else []

def stringItems (value : NodeId) : List String :=
  if t.kind value == "array" then (strings t value).map (stringValue t src) else []

def memberName? (member : NodeId) : Option String :=
  if t.kind member == "method_definition" then
    (t.childOfKind? member "property_identifier").map (textString t src)
  else if t.kind member == "pair" then keyName? t src member
  else none

def memberNames (value : NodeId) : List String :=
  if t.kind value == "object" then (t.namedChildren value).filterMap (memberName? t src) else []

def withMember (d : ComponentDefinition) (member : NodeId) : ComponentDefinition :=
  if t.kind member == "pair" then
    match keyName? t src member, t.namedChild? member 1 with
    | some "props", some value => { d with props := props t src value }
    | some "emits", some value => { d with emits := stringItems t src value }
    | some "methods", some value => { d with methods := memberNames t src value }
    | some "computed", some value => { d with computed := memberNames t src value }
    | some "template", _ => { d with hasTemplate := true }
    | _, _ => d
  else if t.kind member == "shorthand_property_identifier" &&
      t.text src member == "template".toList then { d with hasTemplate := true }
  else d

/-- Adds what the imported template holds. A template that cannot be read has nothing. -/
def withTemplate (files : FileTree) (file : Path) (d : ComponentDefinition)
    (specifier : List Char) : ComponentDefinition :=
  let template := relativeTo file specifier
  let content := (files.readText template).toOption.getD []
  { d with
    slots := slotsOf content
    blocks := blocksOf content
    templatePath := some template.toString }

/-- The definition of an options object. `template` is the specifier of the imported template. -/
def definition (files : FileTree) (file : Path) (template : Option (List Char)) (object : NodeId) :
    ComponentDefinition :=
  let d := (t.namedChildren object).foldl (withMember t src) { filePath := file.toString }
  match template with
  | some specifier => withTemplate files file d specifier
  | none => d

/-- The object of the first top-level `export default` with one. -/
def exportedObject? : Option NodeId :=
  ((t.namedChildren t.root).filter fun n =>
    t.kind n == "export_statement" && (t.childOfKind? n "default").isSome).findSome? fun n =>
    t.childOfKind? n "object"

def templateImport? : Option (List Char) := do
  let statement ← ((t.namedChildren t.root).filter fun n =>
    t.kind n == "import_statement").find? fun n =>
      ((t.childOfKind? n "import_clause").bind fun c => t.childOfKind? c "identifier").any fun i =>
        t.text src i == "template".toList
  let s ← t.childOfKind? statement "string"
  some (stringLiteral t src s)

end ProjectIndex.Components
