import ProjectIndex.Grammar.Script.Expression

/-!
Declarations, and what a module imports and exports. Some of their first words are names too: such a
word is a name where a line break ends it.
-/
namespace ProjectIndex.Script

open Reader

def openingWord (text : String) : Reader Shape := do
  let w ← word text
  if ← lineEnded true then failure else return w

namespace Readers

def declarator (r : Readers) : Reader Shape :=
  node "variable_declarator" do
    let bound ← r.binding
    let annotation ← maybe (one r.typeAnnotation)
    return bound :: annotation ++ (← maybe r.initializer)

def assuredDeclarator (r : Readers) : Reader Shape :=
  node "variable_declarator" do return [← identifier, ← mark "!", ← r.typeAnnotation]

def variableList (r : Readers) : Reader Shape := do
  let t ← tokenWhere fun t => t.isWord "const" || t.isWord "let" || t.isWord "var"
  if t.text == "let" && (← lineEnded true) then failure
  let all ← separated (r.assuredDeclarator <|> r.declarator)
  let hasValue := all.getLast?.any (·.children.any (·.kind == "="))
  let last ← statementEnd hasValue
  return .spanning (if t.text == "var" then "variable_declaration" else "lexical_declaration")
    (t.shape :: all ++ last)

def typeAlias (r : Readers) : Reader Shape :=
  node "type_alias_declaration" do
    let w ← openingWord "type"
    let name ← nameAs "type_identifier"
    let generic ← maybe (one r.typeParameters)
    let m ← mark "="
    let t ← r.type
    return w :: name :: generic ++ [m, t] ++ (← statementEnd false)

def interface (r : Readers) : Reader Shape :=
  node "interface_declaration" do
    let w ← word "interface"
    let name ← nameAs "type_identifier"
    let generic ← maybe (one r.typeParameters)
    let above ← maybe (one (node "extends_type_clause" do
      let w ← word "extends"
      return w :: (← inBrackets (separated r.type))))
    return w :: name :: generic ++ above ++ [← typeMembers "interface_body" r]

def functionNamed (r : Readers) : Reader Shape := do
  let before ← maybe asyncWord
  let w ← word "function"
  let star ← optionalMark "*"
  let name ← identifier
  let sig ← r.signature
  let head := before ++ w :: star ++ name :: sig
  if ← atMark "\x7b" then
    let kind := if star.isEmpty then "function_declaration" else "generator_function_declaration"
    return .spanning kind (head ++ [← r.block false])
  else if star.isEmpty then return .spanning "function_signature" (head ++ (← statementEnd false))
  else failure

/-- A class with a name. Only a class with all its parts takes the comments behind it. -/
def classNamed (r : Readers) : Reader Shape := do
  let decorated ← r.decorators
  let before ← optionalWord "abstract"
  let parts ← classFrom r.baseValue (one (nameAs "type_identifier")) r
  if before.isEmpty then
    return .spanning "class_declaration" (decorated ++ parts ++ (← maybe (lineEnd false)))
  else return .spanning "abstract_class_declaration" (decorated ++ before ++ parts)

def enumeration (r : Readers) : Reader Shape :=
  node "enum_declaration" do
    let before ← optionalWord "const"
    let w ← word "enum"
    let name ← identifier
    let item := withDefault "enum_assignment" r.propertyName r
    return before ++ [w, name, ← bracketed "enum_body" "\x7b" item "\x7d"]

def modulePath : Reader Shape := do
  let name ← identifier
  return scopedName name (← pathSteps (← remaining))

def moduleParts (afterExpression : Bool) (r : Readers) : Reader (List Shape) := do
  let name ← stringLiteral <|> modulePath
  return name :: (← maybe (one (r.block afterExpression)))

def moduleNamed (r : Readers) : Reader Shape :=
  node "module" do return (← openingWord "module") :: (← moduleParts false r)

def innerModule (afterExpression : Bool) (r : Readers) : Reader Shape :=
  node "internal_module" do
    return (← openingWord "namespace") :: (← moduleParts afterExpression r)

def importAlias : Reader Shape :=
  node "import_alias" do
    let w ← word "import"
    let name ← identifier
    let m ← mark "="
    let path ← modulePath
    return [w, name, m, path] ++ (← statementEnd false)

def plainDeclaration (r : Readers) : Reader Shape := do
  let some t ← peek? | failure
  if t.isMark "@" then r.classNamed
  else if t.cls != .word then failure
  else match t.text with
    | "const" => r.variableList <|> r.enumeration
    | "let" | "var" => r.variableList
    | "function" | "async" => r.functionNamed
    | "class" | "abstract" => r.classNamed
    | "interface" => r.interface
    | "enum" => r.enumeration
    | "type" => r.typeAlias
    | "module" => r.moduleNamed
    | "namespace" => innerModule false r
    | "import" => importAlias
    | _ => failure

def ambient (r : Readers) : Reader Shape :=
  node "ambient_declaration" do
    let w ← openingWord "declare"
    let declared ← one r.plainDeclaration
      <|> (do return [← word "global", ← r.block false])
      <|> (do
        let w ← word "module"
        let dot ← mark "."
        let name ← propertyIdentifier
        let annotated := [w, dot, name, ← mark ":", ← r.type]
        return annotated ++ (← statementEnd false))
    return w :: declared

def declaration (r : Readers) : Reader Shape := r.plainDeclaration <|> r.ambient

def sharedName : Reader Shape :=
  (do return (← tokenWhere fun t => t.cls == .word).named "identifier") <|> stringLiteral

def kindWord : Reader (List Shape) := do
  let w ← oneOfWords ["type", "typeof"]
  let isName ← nextIs fun t => t.isMark "," || t.isMark "\x7d" || t.isMark "=" ||
    t.isWord "as" || t.isWord "from"
  if isName then failure else return [w.shape]

def specifier (kind : String) : Reader Shape :=
  node kind do
    let before ← maybe kindWord
    let name ← sharedName
    let other ← maybe do return [← word "as", ← sharedName]
    return before ++ name :: other

def namedImports : Reader Shape :=
  bracketed "named_imports" "\x7b" (specifier "import_specifier") "\x7d"

def namespaceImport : Reader Shape :=
  node "namespace_import" do return [← mark "*", ← word "as", ← identifier]

def importClause : Reader Shape :=
  node "import_clause" (
    one namespaceImport
    <|> one namedImports
    <|> do
      let name ← identifier
      let more ← maybe do return [← mark ",", ← namespaceImport <|> namedImports]
      return name :: more)

def requireClause : Reader Shape :=
  node "import_require_clause" do
    return [← identifier, ← mark "=", ← word "require", ← mark "(", ← stringLiteral, ← mark ")"]

def importStatement (r : Readers) : Reader Shape :=
  node "import_statement" do
    let w ← word "import"
    let kind ← maybe kindWord
    let what ← one requireClause
      <|> (do return [← importClause, ← word "from", ← stringLiteral])
      <|> one stringLiteral
    let extra ← maybe (one (node "import_attribute" do return [← word "with", ← r.object]))
    return w :: kind ++ what ++ extra ++ (← statementEnd false)

def exportClause : Reader Shape :=
  bracketed "export_clause" "\x7b" (specifier "export_specifier") "\x7d"

def exportedDefault (r : Readers) : Reader (List Shape) := do
  let w ← word "default"
  let declared ← nextIs fun t => t.isMark "@" || t.cls == .word &&
    ["function", "async", "class", "abstract", "interface", "enum"].contains t.text
  let value := do
    let e ← r.expression
    return e :: (← statementEnd true)
  return w :: (← if declared then one r.plainDeclaration <|> value else value)

def exported (r : Readers) : Reader (List Shape) :=
  let source := do return [← word "from", ← stringLiteral]
  r.exportedDefault
  <|> (do
    let kind ← maybe (one (word "type"))
    let clause ← exportClause
    let path ← maybe source
    return kind ++ clause :: path ++ (← statementEnd false))
  <|> (do
    let all ← (node "namespace_export" do return [← mark "*", ← word "as", ← sharedName]) <|> mark "*"
    let path ← source
    return all :: path ++ (← statementEnd false))
  <|> (do
    let m ← mark "="
    let e ← r.expression
    return m :: e :: (← statementEnd true))
  <|> (do
    let global := [← word "as", ← word "namespace", ← identifier]
    return global ++ (← statementEnd false))
  <|> one r.declaration

def exportStatement (r : Readers) : Reader Shape :=
  node "export_statement" do
    let decorated ← r.decorators
    return decorated ++ (← openingWord "export") :: (← r.exported)

end Readers
end ProjectIndex.Script
