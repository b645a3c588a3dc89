import ProjectIndex.Grammar.Twig.Token
import ProjectIndex.Tree.Builder

/-!
The tree of a Twig source. The root is a `template`; its nodes are `content` for text that is not
blank, `comment`, `output`, `tag` with a `name` and its `string` and `identifier` arguments, and
`block`. A block with an inline body closes at once, any other at its `endblock`. What is never
terminated is an error, and so is an `endblock` without a block.
-/
namespace ProjectIndex.Twig

def addArguments (b : TreeBuilder) : List Token → TreeBuilder
  | [] => b
  | t :: ts =>
    match t.kind with
    | .identifier => addArguments (b.leaf "identifier" true t.start t.stop) ts
    | .string => addArguments (b.leaf "string" true t.start t.stop) ts
    | .other => addArguments b ts

def addErrorLeaf (b : TreeBuilder) (kind : String) (start stop : Nat) : TreeBuilder :=
  let b := b.leaf kind true start stop
  b.markError b.lastId

/-- A block takes its name from the token behind the keyword; any further token is its body. -/
def addBlock (b : TreeBuilder) (start stop : Nat) (args : List Token) : TreeBuilder :=
  let b := b.openNode "block" true start
  let b :=
    match args with
    | t :: _ => if t.isIdentifier then b.leaf "identifier" true t.start t.stop else b
    | [] => b
  if 1 < args.length then (addArguments b args.tail).close stop else b

def addEndBlock (b : TreeBuilder) (start stop : Nat) : TreeBuilder :=
  if b.currentKind? = some "block" then (b.leaf "endblock" false start stop).close stop
  else addErrorLeaf b "ERROR" start stop

def addTag (b : TreeBuilder) (start stop : Nat) (tokens : List Token) : TreeBuilder :=
  let b := b.openNode "tag" true start
  let b :=
    match tokens with
    | t :: ts =>
      if t.isIdentifier then addArguments (b.leaf "name" true t.start t.stop) ts
      else addArguments b tokens
    | [] => b
  b.close stop

def addStatement (b : TreeBuilder) (start stop : Nat) (tokens : List Token) : TreeBuilder :=
  match tokens with
  | t :: args =>
    if t.isIdentifier && t.chars == "block".toList then addBlock b start stop args
    else if t.isIdentifier && t.chars == "endblock".toList then addEndBlock b start stop
    else addTag b start stop tokens
  | [] => addTag b start stop tokens

def addClosed (b : TreeBuilder) (kind : String) (start stop : Nat) (closed : Bool) : TreeBuilder :=
  if closed then b.leaf kind true start stop else addErrorLeaf b kind start stop

def addSegment (b : TreeBuilder) (pos : Nat) (s : Segment) : TreeBuilder :=
  let stop := pos + Text.byteLength s.chars
  match s with
  | .text chars => if chars.all Text.isBlank then b else b.leaf "content" true pos stop
  | .comment _ closed => addClosed b "comment" pos stop closed
  | .output _ closed => addClosed b "output" pos stop closed
  | .statement body true => addStatement b pos stop (tokenize (pos + 2) body)
  | .statement _ false => addErrorLeaf b "tag" pos stop

def addSegments (b : TreeBuilder) (pos : Nat) : List Segment → TreeBuilder
  | [] => b
  | s :: rest => addSegments (addSegment b pos s) (pos + Text.byteLength s.chars) rest

/-- Closes the open blocks, innermost first, as errors; the root stays open. -/
def closeBlocks (b : TreeBuilder) : List NodeId → TreeBuilder
  | [] => b
  | [_] => b
  | i :: rest => closeBlocks ((b.close b.sourceLength).markError i) rest

def parse (src : Source) : SyntaxTree :=
  let b := (TreeBuilder.new src).openNode "template" true 0
  let b := addSegments b 0 (cut src)
  ((closeBlocks b b.opened).close b.sourceLength).finish

end ProjectIndex.Twig
