import ProjectIndex.Grammar.Xml.Doctype

/-!
The tree of an XML source: a `document` with an optional `prolog`, one `element`, and what follows
it. An element is a start tag, its `content` unless that is empty, and an end tag; or an empty-element
tag alone. References and character data are nodes; the text of a comment is not looked into.
-/
namespace ProjectIndex.Xml

def openingTag? (c : Cursor) : Option (Shape × Cursor) := do
  let (mark, d) ← c.token? "<"
  let (n, d) ← name? d
  let (as, d) := assignments "Attribute" "AttValue" d.rest.length d
  let d := skipSpace d
  match d.token? "/>" with
  | some (t, d) => some (.spanning "EmptyElemTag" (mark :: n :: as ++ [t]), d)
  | none =>
    let (t, d) ← d.token? ">"
    some (.spanning "STag" (mark :: n :: as ++ [t]), d)

def closingTag? (c : Cursor) : Option (Shape × Cursor) := do
  let (mark, d) ← c.token? "</"
  let (n, d) ← name? d
  let (t, d) ← (skipSpace d).token? ">"
  some (.spanning "ETag" [mark, n, t], d)

def cdata? (c : Cursor) : Option (Shape × Cursor) := do
  let (mark, d) ← c.token? "<!["
  let (word, d) ← d.token? "CDATA"
  let (bracket, inside) ← d.token? "["
  let d ← inside.upTo? "]]>"
  let (stop, e) ← d.token? "]]>"
  let data := if inside.pos = d.pos then [] else [Shape.named "CData" inside.pos d.pos]
  some (.spanning "CDSect" (.spanning "CDStart" [mark, word, bracket] :: data ++ [stop]), e)

def item? (element : Cursor → Option (Shape × Cursor)) (c : Cursor) : Option (Shape × Cursor) :=
  match c.rest with
  | [] => none
  | '&' :: _ => reference? c
  | '<' :: '!' :: '-' :: _ => comment? c
  | '<' :: '!' :: _ => cdata? c
  | '<' :: '?' :: _ => instruction? c
  | '<' :: _ => element c
  | _ =>
    let d := c.skipWhile fun x => x != '<' && x != '&'
    some (.named "CharData" c.pos d.pos, d)

def contents (element : Cursor → Option (Shape × Cursor)) :
    Nat → Cursor → Option (List Shape × Cursor)
  | 0, _ => none
  | fuel + 1, c =>
    if c.startsWith "</" then some ([], c)
    else do
      let (i, d) ← item? element c
      let (rest, d) ← contents element fuel d
      some (i :: rest, d)

/-- An element nested at most `fuel` deep. The end tag's name is not compared. -/
def element? : Nat → Cursor → Option (Shape × Cursor)
  | 0, _ => none
  | fuel + 1, c => do
    let (tag, d) ← openingTag? c
    if tag.kind == "EmptyElemTag" then some (.spanning "element" [tag], d)
    else
      let (parts, d) ← contents (element? fuel) (d.rest.length + 1) d
      let (stop, d) ← closingTag? d
      let content := if parts.isEmpty then [] else [Shape.spanning "content" parts]
      some (.spanning "element" (tag :: content ++ [stop]), d)

def setting (key : String) (value : Cursor → Cursor → Shape) (p : Char → Bool) (c : Cursor) :
    Option (List Shape × Cursor) := do
  let (word, d) ← (skipSpace c).token? key
  let (equals, d) ← (skipSpace d).token? "="
  let (mark, d) ← ((skipSpace d).token? "\"").or ((skipSpace d).token? "'")
  let e := d.skipWhile p
  let (stop, f) ← e.token? mark.kind
  some ([word, equals, mark, value d e, stop], f)

def declaration? (c : Cursor) : Option (Shape × Cursor) := do
  let (mark, d) ← c.token? "<?"
  let (word, d) ← d.token? "xml"
  let (version, d) ← setting "version" (fun a b => .named "VersionNum" a.pos b.pos)
    (fun x => x.isDigit || x == '.') d
  let (encoding, d) := (setting "encoding" (fun a b => .named "EncName" a.pos b.pos)
    (fun x => x.isAlphanum || x == '.' || x == '_' || x == '-') d).getD ([], d)
  let (standalone, d) := (setting "standalone"
    (fun a b => .token (if b.pos = a.pos + 2 then "no" else "yes") a.pos b.pos) Char.isAlpha d).getD
    ([], d)
  let (stop, d) ← (skipSpace d).token? "?>"
  some (.spanning "XMLDecl" (mark :: word :: version ++ encoding ++ standalone ++ [stop]), d)

/-- What stands in front of the root element: a declaration, the document type, and comments and
instructions on either side of it. -/
def prologParts (c : Cursor) : List Shape × Cursor :=
  let c := skipSpace c
  let (decl, c) :=
    match declaration? c with
    | some (d, c) => ([d], c)
    | none => ([], c)
  let (before, c) := miscellany (c.rest.length + 1) c
  match doctype? c with
  | none => (decl ++ before, c)
  | some (t, c) =>
    let (after, c) := miscellany (c.rest.length + 1) c
    (decl ++ before ++ t :: after, c)

/-- The shape of an XML source, if it is well formed. A byte order mark is left out of it. -/
def document? (src : Source) : Option Shape := do
  let first := Cursor.ofSource src
  let (before, c) := prologParts first
  let prolog := match before with
    | [] => []
    | p :: _ => [Shape.node "prolog" true false p.start c.pos before]
  let (root, c) ← element? (c.rest.length + 1) c
  let (after, c) := miscellany (c.rest.length + 1) c
  if c.rest.isEmpty then
    some (.node "document" true false first.pos (Text.byteLength src) (prolog ++ root :: after))
  else none

def parse (src : Source) : SyntaxTree := ((document? src).getD (Shape.malformed src)).build src

end ProjectIndex.Xml
