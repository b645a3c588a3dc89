import ProjectIndex.Grammar.Script.Signature

/-!
Types. Brackets behind a type bind tightest, then intersections, unions and conditions; a function
type takes all that follows it as its result.
-/
namespace ProjectIndex.Script

open Reader

def predefinedTypes : List String :=
  ["any", "number", "boolean", "string", "symbol", "void", "unknown", "never", "object"]

def literalTypes : List String := ["null", "undefined", "true", "false"]

def joinedMark (parts : List String) : Reader Shape := do
  let found := (← get).tokens.take parts.length
  let text := String.join parts
  match found with
  | [] => failure
  | t :: _ =>
    let stop := t.start + text.utf8ByteSize
    let last := (found.getLast?.map Token.stop).getD 0
    if found.map Token.text == parts && found.all (·.cls == .mark) && last == stop then
      modify fun u =>
        { u with tokens := u.tokens.drop parts.length, count := u.count - parts.length }
      return .token text t.start stop
    else failure

namespace Readers

def mappedClause (r : Readers) : Reader Shape :=
  node "mapped_type_clause" do
    let name ← nameAs "type_identifier"
    let w ← word "in"
    let keys ← r.type
    let other ← maybe do return [← word "as", ← r.type]
    return name :: w :: keys :: other

def indexedType (r : Readers) : Reader Shape :=
  let marked := fun (kind : String) (parts : List String) =>
    node kind do return [← joinedMark parts, ← r.type]
  r.typeAnnotation
  <|> marked "opting_type_annotation" ["?", ":"]
  <|> marked "omitting_type_annotation" ["-", "?", ":"]
  <|> marked "adding_type_annotation" ["+", "?", ":"]

def indexSignature (r : Readers) : Reader Shape :=
  node "index_signature" do
    let before ← maybe do
      let sign ← maybe (one (mark "-") <|> one (mark "+"))
      return sign ++ [← word "readonly"]
    let o ← mark "["
    let key ← inBrackets (one r.mappedClause <|> do return [← identifier, ← mark ":", ← r.type])
    let c ← mark "]"
    return before ++ o :: key ++ [c, ← r.indexedType]

def constructSignature (r : Readers) : Reader Shape :=
  node "construct_signature" do
    let before ← optionalWord "abstract"
    let w ← word "new"
    let generic ← maybe (one r.typeParameters)
    let ps ← r.parameters
    let result ← maybe (one r.typeAnnotation)
    return before ++ w :: generic ++ ps :: result

def methodSignature (r : Readers) : Reader Shape :=
  node "method_signature" do
    let before ← many (memberModifier
      ["public", "private", "protected", "static", "override", "readonly", "async", "get", "set"])
    let star ← optionalMark "*"
    let name ← r.propertyName
    let mayMiss ← optionalMark "?"
    return before ++ star ++ name :: mayMiss ++ (← r.signature)

def propertySignature (r : Readers) : Reader Shape :=
  node "property_signature" do
    let before ← many (memberModifier
      ["public", "private", "protected", "static", "override", "readonly"])
    let name ← r.propertyName
    let mayMiss ← optionalMark "?"
    let annotation ← maybe (one r.typeAnnotation)
    return before ++ name :: mayMiss ++ annotation

def typeMember (r : Readers) : Reader Shape :=
  r.indexSignature
  <|> r.constructSignature
  <|> node "call_signature" r.signature
  <|> r.methodSignature
  <|> r.propertySignature

def typeMembers (kind : String) (r : Readers) : Reader Shape :=
  let separator := one (mark ",") <|> one (mark ";")
  node kind do
    let o ← mark "\x7b"
    let inside ← inLines do
      let leading ← maybe separator
      let members ← many do
        let m ← r.typeMember
        let e ← separator <|> do
          if (← atMark "\x7d") || (← lineEnded false) then return [] else failure
        return m :: e
      return leading ++ members
    return o :: inside ++ [← mark "\x7d"]

def pathSteps : Nat → Reader (List (Shape × Token))
  | 0 => pure []
  | fuel + 1 =>
    (do
      let dot ← mark "."
      let t ← tokenWhere fun t => t.cls == .word
      return (dot, t) :: (← pathSteps fuel))
    <|> pure []

def scopedName (first : Shape) (steps : List (Shape × Token)) : Shape :=
  let step := fun (kind : String) (e : Shape) (s : Shape × Token) =>
    Shape.spanning kind [e, s.1, s.2.named "property_identifier"]
  match steps.getLast? with
  | none => first
  | some s => step "nested_identifier" (steps.dropLast.foldl (step "member_expression") first) s

/-- A type by its name. In a cast the name has at most one point, and the points behind it go on with
the expression, unless brackets that only a type may have follow. -/
def namedType : Reader Shape := do
  let t ← tokenWhere isIdentifier
  let before ← get
  let all ← pathSteps before.count
  let onlyType := ((← atMark "[") && (← secondIs (·.isMark "]"))) || (← atMark "<")
  let steps ← if before.mode.casting && !onlyType then
      set before
      pathSteps 1
    else pure all
  return match steps.getLast? with
    | none => t.named "type_identifier"
    | some (dot, last) => .spanning "nested_type_identifier"
      [scopedName (t.named "identifier") steps.dropLast, dot, last.named "type_identifier"]

def queriedAfter (r : Readers) : Nat → Shape → Reader Shape
  | 0, e => pure e
  | fuel + 1, e =>
    (do
      if ← lineEnded (← mode).casting then failure
      let grown ← (do
          let dot ← mark "." <|> mark "?."
          return .spanning "member_expression" [e, dot, ← propertyIdentifier <|> privateIdentifier])
        <|> (do
          let chain ← optionalMark "?."
          let o ← mark "["
          let index ← (do return wrapped "predefined_type" (← oneOfWords predefinedTypes))
            <|> stringLiteral <|> numberLiteral
          return .spanning "subscript_expression" (e :: chain ++ [o, index, ← mark "]"]))
        <|> (do return .spanning "call_expression" [e, ← r.arguments])
      queriedAfter r fuel grown)
    <|> pure e

def typeQuery (r : Readers) : Reader Shape :=
  node "type_query" do
    let w ← word "typeof"
    let base ← (do return (← tokenWhere (·.isWord "this")).named "this") <|> importKeyword
      <|> identifier
    let e ← queriedAfter r (← remaining) base
    let types ← maybe (one r.typeArguments)
    return [w, if types.isEmpty then e else .spanning "instantiation_expression" (e :: types)]

def importedMembers : Nat → Shape → Reader Shape
  | 0, e => pure e
  | fuel + 1, e =>
    (do
      let dot ← mark "."
      importedMembers fuel (.spanning "member_expression" [e, dot, ← propertyIdentifier]))
    <|> pure e

def importedType (r : Readers) : Reader Shape := do
  let callee ← importKeyword
  importedMembers (← remaining) (.spanning "call_expression" [callee, ← r.arguments])

def inferredType (r : Readers) : Reader Shape :=
  node "infer_type" do
    let w ← word "infer"
    let name ← nameAs "type_identifier"
    let bound ← maybe do return [← word "extends", ← r.type]
    return w :: name :: bound

def functionType (r : Readers) : Reader Shape :=
  node "function_type" do
    let generic ← maybe (one r.typeParameters)
    let ps ← r.parameters
    let m ← mark "=>"
    return generic ++ [ps, m, ← r.assertion <|> r.typePredicate <|> r.type]

def constructorType (result : Reader Shape) (r : Readers) : Reader Shape :=
  node "constructor_type" do
    let before ← optionalWord "abstract"
    let w ← word "new"
    let generic ← maybe (one r.typeParameters)
    let ps ← r.parameters
    let m ← mark "=>"
    return before ++ w :: generic ++ [ps, m, ← result]

def templateType (r : Readers) : Reader Shape :=
  node "template_literal_type" do
    let o ← templatePart (· == "`")
    let inside ← many (one (templatePart (· == "text"))
      <|> one (node "template_type" do
        return [← templatePart (· == "$\x7b"), ← inBrackets r.type, ← mark "\x7d"]))
    return o :: inside ++ [← templatePart (· == "`")]

def tupleElement (r : Readers) : Reader Shape :=
  (node "required_parameter" do
    return [← node "rest_pattern" do return [← mark "...", ← identifier], ← r.typeAnnotation])
  <|> (node "required_parameter" do return [← identifier, ← r.typeAnnotation])
  <|> (node "optional_parameter" do return [← identifier, ← mark "?", ← r.typeAnnotation])
  <|> (node "rest_type" do return [← mark "...", ← r.type])
  <|> (do
    let t ← r.type
    (do return .spanning "optional_type" [t, ← mark "?"]) <|> pure t)

def wordType (tight : Reader Shape) (r : Readers) : Reader Shape := do
  let some t ← peek? | failure
  if t.cls != .word then failure
  else if predefinedTypes.contains t.text then return wrapped "predefined_type" (← next)
  else if literalTypes.contains t.text then
    let t ← next
    return .spanning "literal_type" [t.named t.text]
  else match t.text with
    | "this" => return (← next).named "this_type"
    | "const" => return (← next).shape
    | "typeof" => r.typeQuery
    | "keyof" => node "index_type_query" do return [← word "keyof", ← tight]
    | "readonly" => node "readonly_type" do return [← word "readonly", ← r.type]
    | "infer" => r.inferredType
    | "import" => r.importedType
    | "new" | "abstract" => constructorType tight r
    | "unique" =>
      let part := fun (u : Token) => Shape.token "unique symbol" u.start u.stop
      let u ← next
      return .spanning "predefined_type" [part u, part (← tokenWhere (·.isWord "symbol"))]
    | _ =>
      let name ← namedType
      let arguments ← maybe (one r.typeArguments)
      return if arguments.isEmpty then name else .spanning "generic_type" (name :: arguments)

def signedNumber : Reader Shape :=
  node "unary_expression" do return [← mark "-" <|> mark "+", ← numberLiteral]

def simpleType (tight : Reader Shape) (r : Readers) : Reader Shape :=
  wordType tight r
  <|> (node "literal_type" do return [← stringLiteral <|> numberLiteral <|> signedNumber])
  <|> r.functionType
  <|> (node "parenthesized_type" do return [← mark "(", ← inBrackets r.type, ← mark ")"])
  <|> typeMembers "object_type" r
  <|> bracketed "tuple_type" "[" r.tupleElement "]"
  <|> r.templateType
  <|> (node "flow_maybe_type" do return [← mark "?", ← tight])
  <|> node "existential_type" (one (mark "*"))

def arrayType (r : Readers) : Nat → Shape → Reader Shape
  | 0, t => pure t
  | fuel + 1, t =>
    (do
      if ← lineEnded (← mode).casting then failure
      let o ← mark "["
      let index ← inBrackets (maybe (one r.type))
      let c ← mark "]"
      let kind := if index.isEmpty then "array_type" else "lookup_type"
      arrayType r fuel (.spanning kind (t :: o :: index ++ [c])))
    <|> pure t

def tightUpTo (r : Readers) : Nat → Reader Shape
  | 0 => failure
  | fuel + 1 => do arrayType r fuel (← r.simpleType (tightUpTo r fuel))

def joinedAfter (joint kind : String) (item : Reader Shape) : Nat → Shape → Reader Shape
  | 0, t => pure t
  | fuel + 1, t =>
    (do
      let m ← mark joint
      let u ← item
      joinedAfter joint kind item fuel (.spanning kind [t, m, u]))
    <|> pure t

def joinedTypes (joint kind : String) (item : Reader Shape) : Reader Shape := do
  let first ← (node kind do return [← mark joint, ← item]) <|> item
  joinedAfter joint kind item (← remaining) first

def typeOf (r : Readers) : Reader Shape := do
  let tight := r.tightUpTo (← remaining)
  let t ← joinedTypes "|" "union_type" (joinedTypes "&" "intersection_type" tight)
  if ← lineEnded false then return t
  (node "conditional_type" do
    let w ← word "extends"
    let bound ← r.type
    let question ← mark "?"
    let yes ← r.type
    let colon ← mark ":"
    return [t, w, bound, question, yes, colon, ← r.type]) <|> pure t

end Readers
end ProjectIndex.Script
