import ProjectIndex.Grammar.Script.Binding

/-! Classes: their members, and what they extend and implement. -/
namespace ProjectIndex.Script

open Reader

namespace Readers

def method (r : Readers) : Reader Shape :=
  node "method_definition" do
    let before ← many (memberModifier
      ["public", "private", "protected", "static", "override", "readonly", "async", "get", "set"])
    let star ← optionalMark "*"
    let name ← r.propertyName
    let mayMiss ← optionalMark "?"
    let sig ← r.signature
    return before ++ star ++ name :: mayMiss ++ sig ++ [← r.block false]

def abstractMethod (r : Readers) : Reader Shape :=
  node "abstract_method_signature" do
    let before ← many (memberModifier
      ["public", "private", "protected", "abstract", "override", "get", "set"])
    if !before.any (·.kind == "abstract") then failure
    let star ← optionalMark "*"
    let name ← r.propertyName
    let mayMiss ← optionalMark "?"
    return before ++ star ++ name :: mayMiss ++ (← r.signature)

/-- The end of a member: a semicolon or comma, or a place where it may be left out. Comments before it
stay in the class. -/
def memberEnd (afterExpression : Bool) : Reader (List Shape) :=
  one (mark ";") <|> one (mark ",") <|> do
    if (← get).mayEnd afterExpression then return [] else failure

def field (r : Readers) : Reader (List Shape) := do
  let decorated ← r.decorators
  let before ← many (memberModifier
    ["public", "private", "protected", "static", "declare", "override", "readonly", "abstract",
      "accessor"])
  let name ← r.propertyName
  let certainty ← maybe (one (mark "?") <|> one (mark "!"))
  let annotation ← maybe (one r.typeAnnotation)
  let value ← maybe r.initializer
  let f := Shape.spanning "public_field_definition"
    (decorated ++ before ++ name :: certainty ++ annotation ++ value)
  return f :: (← memberEnd !value.isEmpty)

def classMember (r : Readers) : Reader (List Shape) :=
  let ended := fun (member : Reader Shape) => do
    let m ← member
    return m :: (← memberEnd false)
  one (mark ";")
  <|> one (node "class_static_block" do return [← word "static", ← r.block false])
  <|> (do
    let decorated ← r.decorators
    return decorated ++ [← r.method])
  <|> ended r.abstractMethod
  <|> ended r.indexSignature
  <|> ended r.methodSignature
  <|> r.field

def classBody (r : Readers) : Reader Shape :=
  node "class_body" do
    let o ← mark "\x7b"
    let inside ← inLines (many r.classMember)
    return o :: inside ++ [← mark "\x7d"]

def heritage (base : Reader Shape) (r : Readers) : Reader Shape :=
  let above := do
    let value ← base
    return value :: (← maybe (one r.typeArguments))
  node "class_heritage" do
    let extended ← maybe (one (node "extends_clause" do
      let w ← word "extends"
      let first ← above
      let rest ← many do return (← mark ",") :: (← above)
      return w :: first ++ rest))
    let implemented ← maybe (one (node "implements_clause" do
      let w ← word "implements"
      return w :: (← separated r.type)))
    if extended.isEmpty && implemented.isEmpty then failure
    else return extended ++ implemented

def classFrom (base : Reader Shape) (name : Reader (List Shape)) (r : Readers) :
    Reader (List Shape) := do
  let w ← word "class"
  let n ← name
  let generic ← maybe (one r.typeParameters)
  let above ← maybe (one (heritage base r))
  return w :: n ++ generic ++ above ++ [← r.classBody]

end Readers
end ProjectIndex.Script
