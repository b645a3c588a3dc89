import ProjectIndex.Grammar.Script.Declaration

/-! Statements. -/
namespace ProjectIndex.Script

open Reader

namespace Readers

def conditional (r : Readers) : Reader Shape :=
  node "if_statement" do
    let w ← word "if"
    let condition ← r.parenthesized
    let yes ← r.statement
    let no ← maybe (one (node "else_clause" do return [← word "else", ← r.statement]))
    return w :: condition :: yes :: no

def memberLoopHead (r : Readers) : Reader (List Shape) := do
  let bound ← (do
      let kind ← oneOfWords ["const", "let", "var"]
      return [kind.shape, ← r.binding])
    <|> one r.target
    <|> one r.parenthesized
  let operator ← word "of" <|> word "in"
  return bound ++ [operator, ← r.expressions]

def emptyStatement : Reader Shape := node "empty_statement" (one (mark ";"))

def countingLoopHead (r : Readers) : Reader (List Shape) := do
  let bounded := do return [← r.expressions, ← mark ";"]
  let first ← one (inLines r.variableList) <|> one emptyStatement <|> bounded
  let condition ← one emptyStatement <|> bounded
  let step ← maybe (one r.expressions)
  return first ++ condition ++ step

def loop (r : Readers) : Reader Shape :=
  (node "for_in_statement" do
    let w ← word "for"
    let waiting ← optionalWord "await"
    let o ← mark "("
    let head ← inBrackets r.memberLoopHead
    let c ← mark ")"
    return w :: waiting ++ o :: head ++ [c, ← r.statement])
  <|> (node "for_statement" do
    let w ← word "for"
    let o ← mark "("
    let head ← inBrackets r.countingLoopHead
    let c ← mark ")"
    return w :: o :: head ++ [c, ← r.statement])
  <|> (node "while_statement" do
    return [← word "while", ← r.parenthesized, ← r.statement])
  <|> (node "do_statement" do
    let w ← word "do"
    let body ← r.statement
    let v ← word "while"
    let condition ← r.parenthesized
    return [w, body, v, condition] ++ (← maybe (statementEnd false)))

def returning (r : Readers) : Reader Shape :=
  node "return_statement" do
    let w ← word "return"
    let value ← if ← lineEnded false then pure [] else maybe (one r.expressions)
    return w :: value ++ (← statementEnd !value.isEmpty)

def throwing (r : Readers) : Reader Shape :=
  node "throw_statement" do
    let w ← word "throw"
    let value ← r.expressions
    return w :: value :: (← statementEnd true)

def jump (kind name : String) : Reader Shape :=
  node kind do
    let w ← word name
    let label ← if ← lineEnded false then pure [] else maybe (one (nameAs "statement_identifier"))
    return w :: label ++ (← statementEnd false)

def attempt (r : Readers) : Reader Shape :=
  node "try_statement" do
    let w ← word "try"
    let body ← r.block false
    let handler ← maybe (one (node "catch_clause" do
      let c ← word "catch"
      let caught ← maybe do
        let o ← mark "("
        let bound ← inBrackets do return (← r.binding) :: (← maybe (one r.typeAnnotation))
        return o :: bound ++ [← mark ")"]
      return c :: caught ++ [← r.block false]))
    let last ← maybe (one (node "finally_clause" do return [← word "finally", ← r.block false]))
    return w :: body :: handler ++ last

def switchCase (r : Readers) : Reader Shape :=
  (node "switch_case" do
    let w ← word "case"
    let value ← inBrackets r.expressions
    let colon ← mark ":"
    return w :: value :: colon :: (← many (one r.statement)))
  <|> (node "switch_default" do
    let w ← word "default"
    let colon ← mark ":"
    return w :: colon :: (← many (one r.statement)))

def choice (r : Readers) : Reader Shape :=
  node "switch_statement" do
    let w ← word "switch"
    let value ← r.parenthesized
    let body ← node "switch_body" do
      let o ← mark "\x7b"
      let cases ← inLines (many (one r.switchCase))
      return o :: cases ++ [← mark "\x7d"]
    return [w, value, body]

def labeled (r : Readers) : Reader Shape :=
  node "labeled_statement" do
    return [← nameAs "statement_identifier", ← mark ":", ← r.statement]

def expressionStatement (r : Readers) : Reader Shape :=
  node "expression_statement" do
    let e ← r.expressions
    return e :: (← statementEnd true)

/-- A module inside another. Where a line ends with it, it counts as an expression. -/
def innerModuleStatement (r : Readers) : Reader Shape := do
  let m ← innerModule true r
  if (← get).mayEnd true then return .spanning "expression_statement" (m :: (← takeNear)) else return m

def atNamed : Reader Bool := do
  let behind := (← get).tokens.dropWhile fun t =>
    t.isWord "async" || t.isWord "function" || t.isWord "class" || t.isMark "*"
  return behind.head?.any isIdentifier

def statementOf (r : Readers) : Reader Shape := do
  let some t ← peek? | failure
  let plain := r.labeled <|> r.expressionStatement
  if t.isMark "\x7b" then
    if ← atObject then r.expressionStatement <|> r.block false
    else r.block false <|> r.expressionStatement
  else if t.isMark ";" then emptyStatement
  else if t.isMark "@" then r.exportStatement <|> r.plainDeclaration <|> r.expressionStatement
  else if t.cls == .word then
    match t.text with
    | "import" => r.importStatement <|> importAlias <|> r.expressionStatement
    | "export" => r.exportStatement <|> plain
    | "if" => r.conditional
    | "for" | "while" | "do" => r.loop
    | "with" => node "with_statement" do return [← word "with", ← r.parenthesized, ← r.statement]
    | "return" => r.returning
    | "throw" => r.throwing
    | "break" => jump "break_statement" "break"
    | "continue" => jump "continue_statement" "continue"
    | "try" => r.attempt
    | "switch" => r.choice
    | "debugger" => node "debugger_statement" do
      return (← word "debugger") :: (← statementEnd false)
    | "default" => if ← secondIs (·.isMark ":") then failure else r.expressionStatement
    | "namespace" => r.innerModuleStatement <|> plain
    | "declare" => r.ambient <|> plain
    | "function" | "class" => if ← atNamed then r.plainDeclaration else r.expressionStatement
    | "async" =>
      if !(← secondIs fun u => u.isWord "function" && !u.onNewLine) then plain
      else if ← atNamed then r.plainDeclaration
      else r.expressionStatement
    | "const" | "let" | "var" | "abstract" | "interface" | "enum" | "type" | "module" =>
      r.plainDeclaration <|> plain
    | _ => plain
  else r.expressionStatement

end Readers

/-- Readers for sources nested at most `depth` deep. -/
def readers : Nat → Readers
  | 0 => .nothing
  | depth + 1 =>
    { expression := fun ts => (readers depth).expressionOf ts
      term := fun reach ts => (readers depth).termOf reach ts
      statement := fun ts => (readers depth).statementOf ts
      target := fun ts => (readers depth).targetOf ts
      type := fun ts => (readers depth).typeOf ts }

end ProjectIndex.Script
