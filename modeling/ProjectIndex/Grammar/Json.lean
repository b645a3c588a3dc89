import ProjectIndex.Grammar.Cursor
import ProjectIndex.Text.Blank
import ProjectIndex.Tree.Comment

/-!
The tree of a JSON source. A `document` holds any number of values; a `pair` is a key, a colon and a
value; a `string` keeps its quotes, its runs of plain text and its escapes apart. Line and block
comments may stand anywhere between tokens. An exponent has no plus sign: the number ends before it,
and what follows is an `ERROR`.
-/
namespace ProjectIndex.Json

def stringParts : Nat → Cursor → Option (List Shape × Cursor)
  | 0, _ => none
  | fuel + 1, c =>
    match c.rest with
    | [] => none
    | '"' :: _ =>
      let d := c.advance 1
      some ([.token "\"" c.pos d.pos], d)
    | '\n' :: _ => none
    | '\\' :: rest =>
      if rest.isEmpty then none
      else
        let d := c.advance 2
        (stringParts fuel d).map fun r => (.named "escape_sequence" c.pos d.pos :: r.1, r.2)
    | _ =>
      let d := c.skipWhile fun x => x != '"' && x != '\\' && x != '\n'
      (stringParts fuel d).map fun r => (.named "string_content" c.pos d.pos :: r.1, r.2)

def string? (c : Cursor) : Option (Shape × Cursor) :=
  let inside := c.advance 1
  (stringParts (inside.rest.length + 1) inside).map fun r =>
    (.spanning "string" (.token "\"" c.pos inside.pos :: r.1), r.2)

def digits? (c : Cursor) : Option Cursor :=
  let d := c.skipWhile Char.isDigit
  if d.pos = c.pos then none else some d

def number? (c : Cursor) : Option (Shape × Cursor) := do
  let signed := (c.accept? "-").getD c
  let whole ←
    match signed.accept? "0" with
    | some d => some d
    | none => digits? signed
  let fraction :=
    match whole.accept? "." with
    | some d => d.skipWhile Char.isDigit
    | none => whole
  let last :=
    match (fraction.accept? "e").or (fraction.accept? "E") with
    | some d => (digits? ((d.accept? "-").getD d)).getD fraction
    | none => fraction
  some (.named "number" c.pos last.pos, last)

def word? (c : Cursor) (word : String) : Option (Shape × Cursor) :=
  (c.accept? word).map fun d => (.named word c.pos d.pos, d)

def comment? (c : Cursor) : Option (Shape × Cursor) :=
  if c.startsWith "//" then
    let d := c.toLineEnd
    some (.named "comment" c.pos d.pos, d)
  else if c.startsWith "/*" then
    ((c.advance 2).past? "*/").map fun d => (.named "comment" c.pos d.pos, d)
  else none

def token? (c : Cursor) : Option (Shape × Cursor) :=
  match c.rest with
  | [] => none
  | x :: _ =>
    if x == '"' then string? c
    else if x == '-' || x.isDigit then number? c
    else if x == '/' then comment? c
    else if "\x7b\x7d[]:,".toList.contains x then c.token? (String.singleton x)
    else (word? c "true").or ((word? c "false").or (word? c "null"))

/-- The mark and the plus sign of an exponent, which no token holds, in front of its digits. -/
def strayExponent? (c : Cursor) : Option (Shape × Cursor) :=
  match c.rest with
  | e :: '+' :: d :: _ =>
    if (e == 'e' || e == 'E') && d.isDigit then
      let next := c.advance 2
      some (.leaf "ERROR" true true c.pos next.pos, next)
    else none
  | _ => none

/-- The tokens of a source; `afterNumber` says whether a number ends where it begins. -/
def tokens : Nat → Bool → Cursor → Option (List Shape)
  | 0, _, _ => none
  | fuel + 1, afterNumber, c =>
    match (strayExponent? c).filter fun _ => afterNumber with
    | some (t, d) => (tokens fuel false d).map (t :: ·)
    | none =>
      let c := c.skipWhile Text.isBlank
      if c.rest.isEmpty then some []
      else
        match token? c with
        | none => none
        | some (t, d) => (tokens fuel (t.kind == "number") d).map (t :: ·)

def mark? (kind : String) : List Shape → Option (Shape × List Shape)
  | [] => none
  | t :: ts => if t.kind == kind then some (t, ts) else none

abbrev Reader := List Shape → Option (Shape × List Shape)

/-- An `ERROR` with the numbers behind it, where only a comma or a closing mark may stand. -/
def strayNumbers : List Shape → List Shape × List Shape
  | [] => ([], [])
  | t :: ts =>
    if t.kind == "ERROR" then
      let parts := t :: ts.takeWhile fun t => t.kind == "number" || t.kind == "ERROR"
      let last := (parts.getLast?.map Shape.stop).getD t.stop
      ([.node "ERROR" true true t.start last parts], (t :: ts).drop parts.length)
    else ([], t :: ts)

def itemsAfter (item : Reader) (stop : String) : Nat → List Shape → Option (List Shape × List Shape)
  | 0, _ => none
  | fuel + 1, ts =>
    let (stray, ts) := strayNumbers ts
    match mark? stop ts with
    | some (t, ts) => some (stray ++ [t], ts)
    | none => do
      let (comma, ts) ← mark? "," ts
      let (i, ts) ← item ts
      let (rest, ts) ← itemsAfter item stop fuel ts
      some (stray ++ comma :: i :: rest, ts)

def items (item : Reader) (stop : String) (ts : List Shape) : Option (List Shape × List Shape) :=
  match mark? stop ts with
  | some (t, ts) => some ([t], ts)
  | none => do
    let (i, ts) ← item ts
    let (rest, ts) ← itemsAfter item stop (ts.length + 1) ts
    some (i :: rest, ts)

def pair (value : Reader) : Reader
  | [] => none
  | key :: ts => do
    if key.kind != "string" && key.kind != "number" then none
    else
      let (colon, ts) ← mark? ":" ts
      let (v, ts) ← value ts
      some (.spanning "pair" [key, colon, v], ts)

def scalarKinds : List String := ["string", "number", "true", "false", "null"]

/-- A value nested at most `fuel` deep. -/
def value : Nat → Reader
  | 0, _ => none
  | _ + 1, [] => none
  | fuel + 1, t :: ts =>
    if t.kind == "\x7b" then
      (items (pair (value fuel)) "\x7d" ts).map fun r => (.spanning "object" (t :: r.1), r.2)
    else if t.kind == "[" then
      (items (value fuel) "]" ts).map fun r => (.spanning "array" (t :: r.1), r.2)
    else if scalarKinds.contains t.kind then some (t, ts)
    else none

def values : Nat → List Shape → Option (List Shape)
  | 0, _ => none
  | _ + 1, [] => some []
  | fuel + 1, t :: ts => do
    let (v, ts) ← if t.kind == "ERROR" then some (t, ts) else value (ts.length + 2) (t :: ts)
    let vs ← values fuel ts
    some (v :: vs)

def document? (src : Source) : Option Shape := do
  let ts ← tokens (src.length + 1) false (Cursor.ofSource src)
  let comments := ts.filter fun t => t.kind == "comment"
  let vs ← values (ts.length + 1) (ts.filter fun t => t.kind != "comment")
  some (Shape.rootSpanning "document" src (Shape.withComments comments vs))

def parse (src : Source) : SyntaxTree := ((document? src).getD (Shape.malformed src)).build src

end ProjectIndex.Json
