import ProjectIndex.Grammar.Script.Reader

/-! Signatures: type parameters, parameters with their decorators, and the type of the result. -/
namespace ProjectIndex.Script

open Reader

def closeAngle : Reader Shape := do
  let t ← tokenWhere fun t => t.cls == .mark && t.text.toList.head? == some '>'
  if t.text.length > 1 then
    let rest := String.ofList (t.text.toList.drop 1)
    putBack
      { cls := .mark, text := rest, shape := .token rest (t.start + 1) t.stop, onNewLine := false }
  return .token ">" t.start (t.start + 1)

def importKeyword : Reader Shape := do
  let t ← tokenWhere (·.isWord "import")
  if ← atMark "(" then return wrapped "import" t else failure

namespace Readers

def angled (kind : String) (item : Reader Shape) : Reader Shape :=
  node kind do
    let o ← mark "<"
    let inside ← inBrackets do
      let items ← separated item
      return items ++ (← optionalMark ",")
    return o :: inside ++ [← closeAngle]

def typeArguments (r : Readers) : Reader Shape := angled "type_arguments" r.type

def typeAnnotation (r : Readers) : Reader Shape :=
  node "type_annotation" do return [← mark ":", ← r.type]

def typePredicate (r : Readers) : Reader Shape :=
  node "type_predicate" do
    let name ← (do return (← tokenWhere (·.isWord "this")).named "this") <|> identifier
    return [name, ← word "is", ← r.type]

def assertion (r : Readers) : Reader Shape :=
  node "asserts" do
    let w ← word "asserts"
    let claim ← r.typePredicate
      <|> (do return (← tokenWhere (·.isWord "this")).named "this")
      <|> identifier
    return [w, claim]

def resultAnnotation (r : Readers) : Reader Shape :=
  (node "type_predicate_annotation" do return [← mark ":", ← r.typePredicate])
  <|> (node "asserts_annotation" do return [← mark ":", ← r.assertion])
  <|> r.typeAnnotation

def typeParameter (r : Readers) : Reader Shape :=
  node "type_parameter" do
    let fixed ← optionalWord "const"
    let name ← nameAs "type_identifier"
    let bound ← maybe (one (node "constraint" do
      return [← word "extends" <|> mark ":", ← r.type]))
    let default ← maybe (one (node "default_type" do return [← mark "=", ← r.type]))
    return fixed ++ name :: bound ++ default

def typeParameters (r : Readers) : Reader Shape := angled "type_parameters" r.typeParameter

def decoratorMembers : Nat → Shape → Reader Shape
  | 0, e => pure e
  | fuel + 1, e =>
    (do
      let dot ← mark "."
      decoratorMembers fuel (.spanning "member_expression" [e, dot, ← propertyIdentifier]))
    <|> pure e

def decoratorValue (r : Readers) : Reader Shape := do
  let e ← decoratorMembers (← remaining) (← identifier)
  (do
    let types ← maybe (one r.typeArguments)
    return .spanning "call_expression" (e :: types ++ [← r.arguments]))
  <|> pure e

def decorator (r : Readers) : Reader Shape :=
  node "decorator" do
    let m ← mark "@"
    let value ← r.decoratorValue
      <|> (node "parenthesized_expression" do
        return [← mark "(", ← inBrackets r.decoratorValue, ← mark ")"])
    return [m, value]

def decorators (r : Readers) : Reader (List Shape) := many (one r.decorator)

/-- A word in front of the name of a member, as a node where the language has one for it. -/
def modifierShape (t : Token) : Shape :=
  if ["public", "private", "protected"].contains t.text then wrapped "accessibility_modifier" t
  else if t.text == "override" then wrapped "override_modifier" t
  else t.shape

def parameterModifier : Reader (List Shape) := do
  let t ← oneOfWords ["public", "private", "protected", "override", "readonly"]
  if ← nextIs fun u => isIdentifier u || u.isMark "\x7b" || u.isMark "[" then
    return [modifierShape t]
  else failure

def parameter (r : Readers) : Reader Shape := do
  let decorated ← r.decorators
  let before ← many parameterModifier
  let bound ← (node "rest_pattern" do return [← mark "...", ← r.target])
    <|> (do return (← tokenWhere (·.isWord "this")).named "this")
    <|> r.target
  let mayMiss ← optionalMark "?"
  let annotation ← maybe (one r.typeAnnotation)
  let default ← maybe r.initializer
  let kind := if mayMiss.isEmpty then "required_parameter" else "optional_parameter"
  return .spanning kind (decorated ++ before ++ bound :: mayMiss ++ annotation ++ default)

def parameters (r : Readers) : Reader Shape := bracketed "formal_parameters" "(" r.parameter ")"

def signature (r : Readers) : Reader (List Shape) := do
  let generic ← maybe (one r.typeParameters)
  let ps ← r.parameters
  let result ← maybe (one r.resultAnnotation)
  return generic ++ ps :: result

end Readers

def memberModifier (words : List String) : Reader (List Shape) := do
  let t ← oneOfWords words
  let named ← nextIs fun u =>
    u.cls == .mark && ["(", "<", ":", ",", ";", "=", "?", "!", "\x7d"].contains u.text
  if named || (← lineEnded false) then failure else return [Readers.modifierShape t]

end ProjectIndex.Script
