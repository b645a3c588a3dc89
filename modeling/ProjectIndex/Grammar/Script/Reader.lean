import ProjectIndex.Grammar.Script.Token

/-!
Readers of a token list. A reader takes tokens from the head of the list or fails; a failed
alternative leaves the list as it was. A statement ends with a semicolon or at a line break that
stands where the next token cannot go on with it.
-/
namespace ProjectIndex.Script

/-- What surrounds the tokens at hand. -/
structure Mode where
  lineEnds : Bool := true
  casting : Bool := false
  inCondition : Bool := false
deriving Inhabited, Repr

def Mode.bracketed : Mode := { lineEnds := false }

structure Upcoming where
  tokens : List Token
  count : Nat
  last : List Shape := []
  mode : Mode := {}
deriving Inhabited, Repr

def Upcoming.ofList (ts : List Token) (last : List Shape) : Upcoming :=
  { tokens := ts, count := ts.length, last }

def joiningMarks : List Char :=
  [',', '.', ';', '*', '%', '>', '<', '=', '?', '^', '|', '&', '/', ':']

/-- Whether a token on a new line goes on with the statement before; behind an expression an opening
bracket does too. -/
def Token.joinsLine (afterExpression : Bool) (t : Token) : Bool :=
  match t.cls with
  | .mark =>
    t.text.toList.head?.any fun c =>
      joiningMarks.contains c || ((c == '(' || c == '[') && afterExpression) ||
        (c == '+' && t.text != "++") || (c == '-' && t.text != "--") || (c == '!' && t.text != "!")
  | .templatePart => true
  | .literal => t.text == "regex"
  | .number => t.text == "."
  | .word => ["in", "instanceof"].any fun w =>
    t.text.startsWith w && (t.text.toList.drop w.length).head?.all fun c => c.toNat < 128 && !c.isAlpha
  | _ => false

def Upcoming.mayEnd (afterExpression : Bool) (u : Upcoming) : Bool :=
  match u.tokens with
  | [] => true
  | t :: rest =>
    if t.isMark "\x7d" && !t.onNewLine then
      afterExpression || !rest.head?.any (·.isMark ":")
    else t.onNewLine && !t.joinsLine afterExpression

abbrev Reader := StateT Upcoming Option

namespace Reader

def peek? : Reader (Option Token) := do return (← get).tokens.head?

def remaining : Reader Nat := do return (← get).count

def mode : Reader Mode := do return (← get).mode

def inMode (f : Mode → Mode) (r : Reader α) : Reader α := do
  let before ← mode
  modify fun u => { u with mode := f u.mode }
  let x ← r
  modify fun u => { u with mode := before }
  return x

def inBrackets (r : Reader α) : Reader α := inMode (fun _ => .bracketed) r

def inLines (r : Reader α) : Reader α := inMode (fun _ => {}) r

def next : Reader Token := do
  let u ← get
  match u.tokens with
  | [] => failure
  | t :: ts =>
    set { u with tokens := ts, count := u.count - 1 }
    return t

def putBack (t : Token) : Reader Unit :=
  modify fun u => { u with tokens := t :: u.tokens, count := u.count + 1 }

def nextIs (p : Token → Bool) : Reader Bool := do return (← peek?).any p

def secondIs (p : Token → Bool) : Reader Bool := do return ((← get).tokens.drop 1).head?.any p

def atMark (text : String) : Reader Bool := nextIs (·.isMark text)

def atWord (text : String) : Reader Bool := nextIs (·.isWord text)

def tokenWhere (p : Token → Bool) : Reader Token := do
  let t ← next
  if p t then return t else failure

def mark (text : String) : Reader Shape := do return (← tokenWhere (·.isMark text)).shape

def word (text : String) : Reader Shape := do return (← tokenWhere (·.isWord text)).shape

def oneOfWords (texts : List String) : Reader Token :=
  tokenWhere fun t => t.cls == .word && texts.contains t.text

def maybe (r : Reader (List Shape)) : Reader (List Shape) := r <|> pure []

def one (r : Reader Shape) : Reader (List Shape) := do return [← r]

def optionalMark (text : String) : Reader (List Shape) := maybe (one (mark text))

def optionalWord (text : String) : Reader (List Shape) := maybe (one (word text))

def node (kind : String) (r : Reader (List Shape)) : Reader Shape := do
  return .spanning kind (← r)

def wrapped (kind : String) (t : Token) : Shape := .spanning kind [t.shape]

def manyUpTo (r : Reader (List Shape)) : Nat → Reader (List Shape)
  | 0 => pure []
  | fuel + 1 => (do
    let first ← r
    let rest ← manyUpTo r fuel
    return first ++ rest) <|> pure []

def many (r : Reader (List Shape)) : Reader (List Shape) := do manyUpTo r (← remaining)

def separated (item : Reader Shape) : Reader (List Shape) := do
  let first ← item
  let rest ← many do return [← mark ",", ← item]
  return first :: rest

def listUntil (item : Reader Shape) (close : String) : Reader (List Shape) := do
  let items ← inBrackets (many (one (mark ",") <|> do
    let i ← item
    if (← atMark ",") || (← atMark close) then return [i] else failure))
  return items ++ [← mark close]

def bracketed (kind opening : String) (item : Reader Shape) (close : String) : Reader Shape :=
  node kind do
    let o ← mark opening
    return o :: (← listUntil item close)

def behindGroup : Nat → List Token → List Token
  | _, [] => []
  | depth, t :: ts =>
    let opens := ["(", "[", "\x7b", "$\x7b"].contains t.text && t.cls != .literal
    let closes := [")", "]", "\x7d"].contains t.text && t.cls == .mark
    if opens then behindGroup (depth + 1) ts
    else if closes then if depth ≤ 1 then ts else behindGroup (depth - 1) ts
    else behindGroup depth ts

def groupIsFollowedBy (p : Token → Bool) : Reader Bool := do
  return (behindGroup 0 (← get).tokens).head?.any p

def lineEnded (afterExpression : Bool) : Reader Bool := do
  let u ← get
  return u.mode.lineEnds && u.mayEnd afterExpression

def takeNear : Reader (List Shape) := do
  let u ← get
  match u.tokens with
  | [] =>
    set { u with last := [] }
    return u.last
  | t :: ts =>
    set { u with tokens := { t with near := [] } :: ts }
    return t.near

/-- The end of a statement that a line break may bring, with the comments on that line. -/
def lineEnd (afterExpression : Bool) : Reader (List Shape) := do
  if (← get).mayEnd afterExpression then takeNear else failure

def statementEnd (afterExpression : Bool) : Reader (List Shape) :=
  one (mark ";") <|> lineEnd afterExpression

end Reader

def reservedWords : List String :=
  ["break", "case", "catch", "class", "const", "continue", "debugger", "delete", "do",
    "else", "enum", "extends", "finally", "for", "function", "if", "import", "in",
    "instanceof", "return", "super", "switch", "this", "throw", "try", "typeof", "var",
    "void", "while", "with", "null", "true", "false"]

open Reader

def isIdentifier (t : Token) : Bool := t.cls == .word && !reservedWords.contains t.text

def nameAs (kind : String) : Reader Shape := do return (← tokenWhere isIdentifier).named kind

def identifier : Reader Shape := nameAs "identifier"

def propertyIdentifier : Reader Shape := do
  return (← tokenWhere fun t => t.cls == .word).named "property_identifier"

def privateIdentifier : Reader Shape := do
  return (← tokenWhere fun t => t.cls == .privateName).named "private_property_identifier"

def stringLiteral : Reader Shape := do
  return (← tokenWhere fun t => t.cls == .literal && t.text == "string").shape

def numberLiteral : Reader Shape := do return (← tokenWhere fun t => t.cls == .number).shape

def templatePart (p : String → Bool) : Reader Shape := do
  return (← tokenWhere fun t => t.cls == .templatePart && p t.text).shape

/-- Which operators go on with an operand: those that the operator in front of it does not hold off. -/
structure Reach where
  least : Nat := 0
  casts : Bool := true
  typedCalls : Bool := true
  lessThan : Bool := false
deriving Repr

/--
Readers that call each other: an expression without commas, an operand with the operators that reach
it, a statement, what can be assigned to, and a type. Each is good for sources nested up to some depth.
-/
structure Readers where
  expression : Reader Shape
  term : Reach → Reader Shape
  statement : Reader Shape
  target : Reader Shape
  type : Reader Shape

def Readers.nothing : Readers := ⟨failure, fun _ => failure, failure, failure, failure⟩

namespace Readers

def block (afterExpression : Bool) (r : Readers) : Reader Shape :=
  node "statement_block" do
    let o ← mark "\x7b"
    let inside ← inLines (many (one r.statement))
    let c ← mark "\x7d"
    return o :: inside ++ c :: (← maybe (lineEnd afterExpression))

def expressions (r : Readers) : Reader Shape := do
  match ← separated r.expression with
  | [e] => return e
  | es => return .spanning "sequence_expression" es

def computedName (r : Readers) : Reader Shape :=
  node "computed_property_name" do return [← mark "[", ← inBrackets r.expression, ← mark "]"]

def propertyName (r : Readers) : Reader Shape :=
  propertyIdentifier <|> privateIdentifier <|> stringLiteral <|> numberLiteral <|> r.computedName

def spread (r : Readers) : Reader Shape :=
  node "spread_element" do return [← mark "...", ← r.expression]

def arguments (r : Readers) : Reader Shape :=
  bracketed "arguments" "(" (r.spread <|> r.expression) ")"

def initializer (r : Readers) : Reader (List Shape) := do return [← mark "=", ← r.expression]

end Readers
end ProjectIndex.Script
