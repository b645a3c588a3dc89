import ProjectIndex.Grammar.Script.Operand

/-!
Expressions. Operators of one level group to the left and powers to the right, but a comparison leaves
`<` to its right operand. A cast and the mark that a value is not null apply to all that an operator
before them has joined; only a power and a wait keep them. Type arguments bind as loosely as `<`, with
which they begin.
-/
namespace ProjectIndex.Script

open Reader

/-- The binary operators by level, the loosest first. -/
def operatorLevels : List (List String) :=
  [["??"], ["||"], ["&&"], ["|"], ["^"], ["&"], ["==", "!=", "===", "!=="],
    ["<", ">", "<=", ">=", "in", "instanceof"], ["<<", ">>", ">>>"], ["+", "-"], ["*", "/", "%"],
    ["**"]]

def relationLevel : Nat := 7

def powerLevel : Nat := 11

def noLevel : Nat := 12

def level? (t : Token) : Option Nat :=
  let isWord := t.text == "in" || t.text == "instanceof"
  if t.cls == (if isWord then .word else .mark) then operatorLevels.findIdx? (·.contains t.text)
  else none

def augmentedMarks : List String :=
  ["+=", "-=", "*=", "/=", "%=", "**=", "<<=", ">>=", ">>>=", "&=", "|=", "^=", "&&=", "||=", "??="]

def unaryMarks : List String := ["!", "~", "+", "-"]

def unaryWords : List String := ["typeof", "void", "delete"]

namespace Reach

def rightOf (level : Nat) : Reach :=
  if level = powerLevel then { least := powerLevel, typedCalls := false }
  else
    { least := level + 1, casts := false, typedCalls := level ≤ relationLevel,
      lessThan := level = relationLevel }

def signed : Reach := { least := noLevel, casts := false, typedCalls := false }

def asserted : Reach := { least := noLevel, casts := false, lessThan := true }

/-- The reach of an operand that is waited for; what reaches the wait as a whole is `outer`. -/
def awaited (outer : Reach) : Reach :=
  { least := noLevel, typedCalls := false,
    lessThan := outer.least ≤ relationLevel || outer.lessThan }

def awaitedCall : Reach := { least := noLevel }

end Reach

def Token.endsInstance (t : Token) : Bool :=
  if t.cls == .word then t.text == "as" || t.text == "satisfies"
  else t.cls == .mark && [";", ")", "]", "\x7d", ",", ".", "?.", ":", "?", "&&", "||", "??", "==",
    "!=", "===", "!=="].contains t.text

namespace Reader

def ahead (r : Reader α) : Reader Bool := fun u => some ((r u).isSome, u)

end Reader

namespace Readers

def cast (e : Shape) (r : Readers) : Reader Shape := do
  let t ← oneOfWords ["as", "satisfies"]
  let kind := if t.text == "as" then "as_expression" else "satisfies_expression"
  let type ← inMode (fun m => { m with casting := true }) r.type
  return .spanning kind [e, t.shape, type]

def atTypedCall (r : Readers) : Reader Bool :=
  ahead do
    let _ ← r.typeArguments
    mark "("

def instantiation (e : Shape) (r : Readers) : Reader Shape := do
  let types ← r.typeArguments
  match ← peek? with
  | none => return .spanning "instantiation_expression" [e, types]
  | some t =>
    if t.endsInstance then return .spanning "instantiation_expression" [e, types] else failure

def binary (level : Nat) (e : Shape) (r : Readers) : Reader Shape := do
  let operator ← next
  return .spanning "binary_expression" [e, operator.shape, ← r.term (.rightOf level)]

def assignment (kind : String) (e : Shape) (r : Readers) : Reader Shape := do
  let operator ← next
  return .spanning kind [e, operator.shape, ← r.expression]

def grown (reach : Reach) (e : Shape) (r : Readers) : Reader Shape := do
  if ← lineEnded true then failure
  let some t ← peek? | failure
  let isTarget := targetKinds.contains e.kind || e.kind == "parenthesized_expression"
  match t.cls, t.text with
  | .mark, "!" => if reach.casts then nonNull e else failure
  | .mark, "++" | .mark, "--" => return .spanning "update_expression" [e, (← next).shape]
  | .mark, "=" => if isTarget then assignment "assignment_expression" e r else failure
  | .word, "as" | .word, "satisfies" => if reach.casts then r.cast e else failure
  | .mark, "<" =>
    if ← r.atTypedCall then
      if reach.typedCalls then r.typedCall e else failure
    else r.instantiation e <|>
      if reach.lessThan || reach.least ≤ relationLevel then binary relationLevel e r else failure
  | _, _ =>
    if t.cls == .mark && augmentedMarks.contains t.text then
      if isTarget then assignment "augmented_assignment_expression" e r else failure
    else match level? t with
      | some level => if reach.least ≤ level then binary level e r else failure
      | none => r.follower e

def operated (reach : Reach) (r : Readers) : Nat → Shape → Reader Shape
  | 0, e => pure e
  | fuel + 1, e => (do operated reach r fuel (← r.grown reach e)) <|> pure e

/-- A wait. A call with type arguments takes the wait as its callee, unless more than calls follows. -/
def awaiting (outer : Reach) (r : Readers) : Reader Shape := do
  let w ← word "await"
  let e ← r.term .signed
  let whole := fun (x : Shape) => Shape.spanning "await_expression" [w, x]
  let before ← get
  if (← atMark "<") && outer.typedCalls && (← r.atTypedCall) then
    let inner ← operated .awaitedCall r before.count e
    if inner.kind == "call_expression" then
      set before
      return whole e
    else return whole inner
  else return whole (← operated (.awaited outer) r before.count e)

def yielded (r : Readers) : Reader Shape :=
  node "yield_expression" do
    let w ← word "yield"
    if ← lineEnded true then return [w]
    let star ← optionalMark "*"
    let value ← if star.isEmpty then maybe (one r.expression) else one r.expression
    return w :: star ++ value

def typeAssertion (r : Readers) : Reader Shape :=
  node "type_assertion" do return [← r.typeArguments, ← r.term .asserted]

def opening (reach : Reach) (r : Readers) : Reader Shape := do
  let some t ← peek? | failure
  if (t.cls == .mark && unaryMarks.contains t.text) ||
      (t.cls == .word && unaryWords.contains t.text) then
    node "unary_expression" do return [(← next).shape, ← r.term .signed]
  else if t.isMark "++" || t.isMark "--" then
    node "update_expression" do return [(← next).shape, ← r.term .signed]
  else if t.isWord "await" then awaiting reach r
  else if t.isWord "yield" then r.yielded
  else if t.isMark "<" then r.arrow <|> r.typeAssertion
  else if t.cls == .privateName then
    if ← secondIs (·.isWord "in") then privateIdentifier else failure
  else r.operand

def termOf (r : Readers) (reach : Reach) : Reader Shape := do
  let e ← r.opening reach
  operated reach r (← remaining) e

def expressionOf (r : Readers) : Reader Shape := do
  let e ← r.termOf {}
  if ← atMark "?" then
    let question ← mark "?"
    let yes ← inMode (fun _ => { Mode.bracketed with inCondition := true }) r.expression
    let colon ← mark ":"
    return .spanning "ternary_expression" [e, question, yes, colon, ← r.expression]
  else return e

end Readers
end ProjectIndex.Script
