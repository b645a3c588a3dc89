import ProjectIndex.Grammar.Cursor
import ProjectIndex.Tree.Comment

/-!
The parts that occur all over an XML source: names, references, quoted values, comments and processing
instructions.
-/
namespace ProjectIndex.Xml

def isSpace (c : Char) : Bool := c == ' ' || c == '\t' || c == '\n' || c == '\r'

def startsName (c : Char) : Bool := c.isAlpha || c == '_' || c == ':'

def inName (c : Char) : Bool :=
  startsName c || c.isDigit || c == '-' || c == '.' || c == '\u00b7'

def skipSpace (c : Cursor) : Cursor := c.skipWhile isSpace

def nameAs? (kind : String) (c : Cursor) : Option (Shape × Cursor) :=
  match c.rest with
  | x :: _ =>
    if startsName x then
      let d := c.skipWhile inName
      some (.named kind c.pos d.pos, d)
    else none
  | [] => none

def name? : Cursor → Option (Shape × Cursor) := nameAs? "Name"

/-- `&name;`, or `&#` with decimal and `&#x` with hexadecimal digits, which are no node. -/
def reference? (c : Cursor) : Option (Shape × Cursor) := do
  match c.token? "&#x" with
  | some (mark, d) =>
    let (semi, d) ← (d.skipWhile Char.isAlphanum).token? ";"
    some (.spanning "CharRef" [mark, semi], d)
  | none =>
    match c.token? "&#" with
    | some (mark, d) =>
      let (semi, d) ← (d.skipWhile Char.isDigit).token? ";"
      some (.spanning "CharRef" [mark, semi], d)
    | none =>
      let (mark, d) ← c.token? "&"
      let (n, d) ← name? d
      let (semi, d) ← d.token? ";"
      some (.spanning "EntityRef" [mark, n, semi], d)

def valueParts (quote : String) : Nat → Cursor → Option (List Shape × Cursor)
  | 0, _ => none
  | fuel + 1, c =>
    match c.token? quote with
    | some (t, d) => some ([t], d)
    | none =>
      match c.rest with
      | [] => none
      | '&' :: _ => do
        let (r, d) ← reference? c
        let (rest, d) ← valueParts quote fuel d
        some (r :: rest, d)
      | _ => valueParts quote fuel (c.advance 1)

def quote? (c : Cursor) : Option (Shape × Cursor) := (c.token? "\"").or (c.token? "'")

def valueAs? (kind : String) (c : Cursor) : Option (Shape × Cursor) := do
  let (mark, d) ← quote? c
  let (parts, d) ← valueParts mark.kind (d.rest.length + 1) d
  some (.spanning kind (mark :: parts), d)

def assignment? (kind valueKind : String) (c : Cursor) : Option (Shape × Cursor) := do
  let (n, d) ← name? c
  let (equals, d) ← (skipSpace d).token? "="
  let (value, d) ← valueAs? valueKind (skipSpace d)
  some (.spanning kind [n, equals, value], d)

def assignments (kind valueKind : String) : Nat → Cursor → List Shape × Cursor
  | 0, c => ([], c)
  | fuel + 1, c =>
    match assignment? kind valueKind (skipSpace c) with
    | some (a, d) =>
      let r := assignments kind valueKind fuel d
      (a :: r.1, r.2)
    | none => ([], c)

def comment? (c : Cursor) : Option (Shape × Cursor) := do
  let d ← (← c.accept? "<!--").past? "-->"
  some (.named "Comment" c.pos d.pos, d)

/-- `<?`, the name of what the instruction is for, and `?>`; the text between them is no node. -/
def instruction? (c : Cursor) : Option (Shape × Cursor) := do
  let (mark, d) ← c.token? "<?"
  let (target, d) ← nameAs? "PITarget" d
  let (stop, d) ← (← d.upTo? "?>").token? "?>"
  some (.spanning "PI" [mark, target, stop], d)

def knownInstruction? (c : Cursor) : Option (Shape × Cursor) := do
  let (mark, d) ← c.token? "<?"
  let (kind, target, d) ←
    ((d.token? "xml-stylesheet").map fun r => ("StyleSheetPI", r)).or
      ((d.token? "xml-model").map fun r => ("XmlModelPI", r))
  if d.rest.head?.any inName then none
  else
    let (as, d) := assignments "PseudoAtt" "PseudoAttValue" d.rest.length d
    let (stop, d) ← (skipSpace d).token? "?>"
    some (.spanning kind (mark :: target :: as ++ [stop]), d)

def miscellany : Nat → Cursor → List Shape × Cursor
  | 0, c => ([], c)
  | fuel + 1, c =>
    let d := skipSpace c
    match (comment? d).or <| (knownInstruction? d).or (instruction? d) with
    | some (m, e) =>
      let r := miscellany fuel e
      (m :: r.1, r.2)
    | none => ([], d)

end ProjectIndex.Xml
