import ProjectIndex.Grammar.Script.Class

/-!
Operands: literals, names, functions, and what follows them and binds tighter than any operator
(members, calls, indices).
-/
namespace ProjectIndex.Script

open Reader

def valueWords : List String := ["this", "super", "true", "false", "null", "undefined"]

def targetKinds : List String :=
  ["identifier", "undefined", "member_expression", "subscript_expression", "non_null_expression"]

namespace Readers

def parenthesized (r : Readers) : Reader Shape :=
  node "parenthesized_expression" do
    let o ← mark "("
    let inside ← inBrackets do
      let e ← r.expressions
      return e :: (← maybe (one r.typeAnnotation))
    return o :: inside ++ [← mark ")"]

def array (r : Readers) : Reader Shape :=
  bracketed "array" "[" (r.spread <|> r.expression) "]"

def objectMember (r : Readers) : Reader Shape :=
  r.spread
  <|> r.method
  <|> (node "pair" do return [← r.propertyName, ← mark ":", ← r.expression])
  <|> nameAs "shorthand_property_identifier"

def object (r : Readers) : Reader Shape := bracketed "object" "\x7b" r.objectMember "\x7d"

/-- Whether a brace begins an object rather than a block: a name with a colon follows. -/
def atObject : Reader Bool := do
  match (← get).tokens with
  | o :: name :: colon :: _ => return o.isMark "\x7b" && name.cls == .word && colon.isMark ":"
  | _ => return false

def asyncWord : Reader (List Shape) := do
  let w ← word "async"
  if ← lineEnded true then failure else return [w]

def functionValue (r : Readers) : Reader Shape := do
  let before ← maybe asyncWord
  let w ← word "function"
  let star ← optionalMark "*"
  let name ← maybe (one identifier)
  let sig ← r.signature
  let body ← r.block true
  return .spanning (if star.isEmpty then "function_expression" else "generator_function")
    (before ++ w :: star ++ name ++ sig ++ [body])

def arrow (r : Readers) : Reader Shape :=
  node "arrow_function" do
    let before ← maybe do
      let w ← asyncWord
      if ← nextIs fun t => isIdentifier t || t.isMark "(" || t.isMark "<" then return w else failure
    let given ← one identifier <|> r.signature
    let m ← mark "=>"
    let body ←
      if ← atObject then r.expression <|> r.block true
      else if ← atMark "\x7b" then r.block true <|> r.expression
      else r.expression
    return before ++ given ++ [m, body]

def atArrow : Reader Bool := do
  match (← get).tokens with
  | [] => return false
  | t :: ts =>
    let ts := if t.isWord "async" && ts.head?.any (!·.isMark "=>") then ts else t :: ts
    match ts with
    | u :: v :: _ =>
      if isIdentifier u then return v.isMark "=>"
      else if u.isMark "(" then
        return (behindGroup 0 ts).head?.any fun w => w.isMark "=>" || w.isMark ":"
      else return u.isMark "<"
    | _ => return false

/-- An arrow function where it may stand. Before the colon of a condition it names the type of its
result only if that colon is still to come. -/
def arrowHere (r : Readers) : Reader Shape := do
  let e ← r.arrow
  let namesResult := e.children.any fun p =>
    ["type_annotation", "type_predicate_annotation", "asserts_annotation"].contains p.kind
  if namesResult && (← mode).inCondition && !(← atMark ":") then failure else return e

def templateString (r : Readers) : Reader Shape :=
  node "template_string" do
    let o ← templatePart (· == "`")
    let inside ← many (one (templatePart fun x => x == "text" || x == "escape")
      <|> one (node "template_substitution" do
        return [← templatePart (· == "$\x7b"), ← inBrackets r.expressions, ← mark "\x7d"]))
    return o :: inside ++ [← templatePart (· == "`")]

def metaProperty (first second : String) : Reader Shape :=
  node "meta_property" do return [← word first, ← mark ".", ← word second]

def optionalChain : Reader Shape := do
  return wrapped "optional_chain" (← tokenWhere (·.isMark "?."))

def member (object : Shape) : Reader Shape := do
  let link ← mark "." <|> optionalChain
  return .spanning "member_expression" [object, link, ← propertyIdentifier <|> privateIdentifier]

def subscript (object : Shape) (r : Readers) : Reader Shape := do
  let chain ← maybe (one optionalChain)
  let o ← mark "["
  let index ← inBrackets r.expressions
  return .spanning "subscript_expression" (object :: chain ++ [o, index, ← mark "]"])

def templateCall (callee : Shape) (r : Readers) : Reader Shape := do
  return .spanning "call_expression" [callee, ← r.templateString]

def call (callee : Shape) (r : Readers) : Reader Shape := do
  let chain ← optionalMark "?."
  let types ← if chain.isEmpty then pure [] else maybe (one r.typeArguments)
  return .spanning "call_expression" (callee :: chain ++ types ++ [← r.arguments])

def typedCall (callee : Shape) (r : Readers) : Reader Shape := do
  return .spanning "call_expression" [callee, ← r.typeArguments, ← r.arguments]

def follower (e : Shape) (r : Readers) : Reader Shape :=
  member e <|> r.subscript e <|> r.call e <|> r.templateCall e

def followed (step : Shape → Reader Shape) : Nat → Shape → Reader Shape
  | 0, e => pure e
  | fuel + 1, e => (do followed step fuel (← step e)) <|> pure e

def newValue (operand : Reader Shape) (r : Readers) : Reader Shape :=
  metaProperty "new" "target"
  <|> (node "new_expression" do
    let w ← word "new"
    let named ← nextIs fun t => ["as", "satisfies", "in", "instanceof"].any t.isWord
    if named || (← lineEnded true) then failure
    let members := fun (e : Shape) => member e <|> r.subscript e <|> r.templateCall e
    let callee ← followed members (← remaining) (← operand)
    let types ← maybe (one r.typeArguments)
    let given ← if ← atMark "(" then one r.arguments else pure []
    return w :: callee :: types ++ given)
  <|> identifier

def classValue (operand : Reader Shape) (r : Readers) : Reader Shape :=
  let base := do
    followed (fun e => r.follower e <|> r.typedCall e) (← remaining) (← operand)
  node "class" do
    let decorated ← r.decorators
    return decorated ++ (← classFrom base (maybe (one (nameAs "type_identifier"))) r)

def wordOperand (operand : Reader Shape) (r : Readers) : Reader Shape := do
  let some t ← peek? | failure
  if t.cls != .word then failure
  else if valueWords.contains t.text then
    let t ← next
    return t.named t.text
  else match t.text with
    | "new" => newValue operand r
    | "class" => classValue operand r
    | "import" => metaProperty "import" "meta" <|> importKeyword
    | "function" => r.functionValue
    | "async" => r.functionValue <|> identifier
    | _ => identifier

def destructuring (r : Readers) : Reader Shape := do
  if ((← atMark "\x7b") || (← atMark "[")) && (← groupIsFollowedBy (·.isMark "=")) then
    node "assignment_expression" do return (← r.destructured) :: (← r.initializer)
  else failure

def operandUpTo (r : Readers) : Nat → Reader Shape
  | 0 => failure
  | fuel + 1 => do
    let plain := wordOperand (operandUpTo r fuel) r
      <|> numberLiteral
      <|> (do return (← tokenWhere fun t => t.cls == .literal).shape)
      <|> r.parenthesized
      <|> r.destructuring
      <|> r.array
      <|> r.object
      <|> r.templateString
      <|> classValue (operandUpTo r fuel) r
    if ← atArrow then r.arrowHere <|> plain else plain

def operand (r : Readers) : Reader Shape := do r.operandUpTo (← remaining)

def baseValue (r : Readers) : Reader Shape := do
  followed (fun e => r.follower e <|> r.typedCall e) (← remaining) (← r.operand)

def nonNull (e : Shape) : Reader Shape := do
  return .spanning "non_null_expression" [e, ← mark "!"]

def targetOf (r : Readers) : Reader Shape := do
  if (← atMark "\x7b") || (← atMark "[") then r.destructured
  else if (← nextIs isIdentifier) &&
      !(← secondIs fun t => t.cls != .word && [".", "?.", "[", "(", "!", "`"].contains t.text) then
    identifier
  else if ← nextIs fun t => isIdentifier t || t.isWord "this" || t.isWord "super" then
    let e ← followed (fun e => r.follower e <|> nonNull e) (← remaining) (← r.operand)
    if targetKinds.contains e.kind then return e else failure
  else failure

end Readers
end ProjectIndex.Script
