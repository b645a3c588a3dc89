import ProjectIndex.Grammar.Script.Statement
import ProjectIndex.Tree.Comment

/-!
The tree of a script: its statements, with the comments put in their places. A token that begins no
statement becomes an error of its own, and reading goes on behind it.
-/
namespace ProjectIndex.Script

/-- Statements from the head of the token list on, and errors for the tokens that begin none. -/
def statementsFrom (statement : Reader Shape) : Nat → Upcoming → List Shape
  | 0, _ => []
  | fuel + 1, u =>
    match statement.run u with
    | some (s, rest) => s :: statementsFrom statement fuel rest
    | none =>
      match u.tokens with
      | [] => []
      | t :: ts =>
        .leaf "ERROR" true true t.start t.stop
          :: statementsFrom statement fuel { u with tokens := ts, count := u.count - 1 }

def depthFor (count : Nat) : Nat := 4 * count + 4

def rootParts (code : List Token) (last : List Shape) : List Shape :=
  let statements := fun (ts : List Token) =>
    let u := Upcoming.ofList ts last
    statementsFrom (readers (depthFor u.count)).statement (u.count + 1) u
  match code with
  | [] => []
  | t :: ts => if t.cls == .interpreter then t.shape :: statements ts else statements code

def program (src : Source) : Shape :=
  let all := tokens src
  let comments := (all.filter fun t => t.cls == .comment).map Token.shape
  let (code, last) := withoutComments all
  Shape.rootSpanning "program" src (Shape.withComments comments (rootParts code last))

def parse (src : Source) : SyntaxTree := (program src).build src

end ProjectIndex.Script
