import ProjectIndex.Grammar.Xml.Part

/-!
The document type of an XML source: the name of its root, an external identifier, and declarations of
elements, attributes, entities and notations between brackets.
-/
namespace ProjectIndex.Xml

/-- What a reader finds, as any number of nodes, and what it leaves. -/
abbrev Parts := Cursor → Option (List Shape × Cursor)

namespace Parts

def one (r : Cursor → Option (Shape × Cursor)) : Parts := fun c =>
  (r c).map fun s => ([s.1], s.2)

def word (w : String) : Parts := one (·.token? w)

def space : Parts := fun c =>
  let d := skipSpace c
  if d.pos = c.pos then none else some ([], d)

def gap : Parts := fun c => some ([], skipSpace c)

def inOrder : List Parts → Parts
  | [], c => some ([], c)
  | p :: ps, c => do
    let (before, c) ← p c
    let (after, c) ← inOrder ps c
    some (before ++ after, c)

def firstOf : List Parts → Parts
  | [], _ => none
  | p :: ps, c => (p c).or (firstOf ps c)

def optional (p : Parts) : Parts := fun c => some ((p c).getD ([], c))

def many (p : Parts) : Nat → Parts
  | 0, c => some ([], c)
  | fuel + 1, c =>
    match p c with
    | none => some ([], c)
    | some (found, d) => (many p fuel d).map fun r => (found ++ r.1, r.2)

def star (p : Parts) : Parts := fun c => many p (c.rest.length + 1) c

def node (kind : String) (p : Parts) : Parts := fun c =>
  (p c).map fun r => ([.spanning kind r.1], r.2)

def spacedNode (kind : String) (p : Parts) : Parts := fun c =>
  (inOrder [space, p] c).map fun r => ([.node kind true false c.pos r.2.pos r.1], r.2)

end Parts

open Parts

def name : Parts := one name?

def nameToken : Parts := fun c =>
  let d := c.skipWhile inName
  if d.pos = c.pos then none else some ([.named "Nmtoken" c.pos d.pos], d)

/-- A quoted text without references; `inside` says what node the text is, unless it is empty. -/
def literal (kind : String) (inside : Option String) : Parts := fun c => do
  let (mark, d) ← quote? c
  let e ← d.upTo? mark.kind
  let (stop, f) ← e.token? mark.kind
  let text := match inside with
    | some k => if d.pos = e.pos then [] else [Shape.named k d.pos e.pos]
    | none => []
  some ([.spanning kind (mark :: text ++ [stop])], f)

def systemLiteral : Parts := literal "SystemLiteral" (some "URI")

def publicLiteral : Parts := literal "PubidLiteral" none

def externalId : Parts :=
  node "ExternalID" <| firstOf [
    inOrder [word "SYSTEM", space, systemLiteral],
    inOrder [word "PUBLIC", space, publicLiteral, space, systemLiteral]]

def parameterReference : Parts := node "PEReference" (inOrder [word "%", name, word ";"])

def entityValueParts (quote : String) : Nat → Cursor → Option (List Shape × Cursor)
  | 0, _ => none
  | fuel + 1, c =>
    match c.token? quote with
    | some (t, d) => some ([t], d)
    | none =>
      match c.rest with
      | [] => none
      | x :: _ =>
        if x == '&' || x == '%' then do
          let (found, d) ← firstOf [one reference?, parameterReference] c
          let (rest, d) ← entityValueParts quote fuel d
          some (found ++ rest, d)
        else entityValueParts quote fuel (c.advance 1)

def entityValue : Parts := fun c => do
  let (mark, d) ← quote? c
  let (parts, d) ← entityValueParts mark.kind (d.rest.length + 1) d
  some ([.spanning "EntityValue" (mark :: parts)], d)

def declared (kind keyword : String) (parts : List Parts) : Parts :=
  node kind (inOrder ([word "<!", word keyword, space] ++ parts ++ [gap, word ">"]))

def generalEntity : Parts :=
  declared "GEDecl" "ENTITY" [name, space, firstOf [entityValue, inOrder [externalId,
    optional (spacedNode "NDataDecl" (inOrder [word "NDATA", space, name]))]]]

def parameterEntity : Parts :=
  declared "PEDecl" "ENTITY" [word "%", space, name, space, firstOf [entityValue, externalId]]

def notationName : Parts :=
  declared "NotationDecl" "NOTATION" [name, space, firstOf [externalId,
    node "PublicID" (inOrder [word "PUBLIC", space, publicLiteral])]]

def bracketed (first other : Parts) (mark : String) : Parts :=
  inOrder [word "(", gap, first, star (inOrder [gap, word mark, gap, other]), gap, word ")"]

def occurrence : Parts := optional (firstOf [word "?", word "*", word "+"])

def group : Nat → Parts
  | 0, _ => none
  | depth + 1, c =>
    let member := inOrder [firstOf [name, group depth], occurrence]
    firstOf [bracketed member member ",", bracketed member member "|"] c

def contentModel : Parts :=
  node "contentspec" <| firstOf [word "EMPTY", word "ANY",
    node "Mixed" (inOrder [bracketed (word "#PCDATA") name "|", optional (word "*")]),
    node "children" (inOrder [fun c => group (c.rest.length + 1) c, occurrence])]

def elementType : Parts := declared "elementdecl" "ELEMENT" [name, space, contentModel]

def attributeType : Parts :=
  firstOf [node "StringType" (word "CDATA"),
    node "TokenizedType" (firstOf (["IDREFS", "IDREF", "ID", "ENTITIES", "ENTITY", "NMTOKENS",
      "NMTOKEN"].map word)),
    node "NotationType" (inOrder [word "NOTATION", space, bracketed name name "|"]),
    node "Enumeration" (bracketed nameToken nameToken "|")]

def attributeDefault : Parts :=
  node "DefaultDecl" <| firstOf [word "#REQUIRED", word "#IMPLIED",
    inOrder [optional (inOrder [word "#FIXED", space]), one (valueAs? "AttValue")]]

def attributeList : Parts :=
  declared "AttlistDecl" "ATTLIST" [name, star (spacedNode "AttDef"
    (inOrder [name, space, attributeType, space, attributeDefault]))]

def internalSubset : Parts :=
  star (firstOf [space, parameterReference, one comment?, one instruction?, generalEntity,
    parameterEntity, elementType, attributeList, notationName])

def doctype : Parts :=
  node "doctypedecl" <| inOrder [word "<!", word "DOCTYPE", space, name,
    optional (inOrder [space, externalId]), gap,
    optional (inOrder [word "[", internalSubset, word "]", gap]), word ">"]

def doctype? (c : Cursor) : Option (Shape × Cursor) :=
  (doctype c).bind fun r => r.1.head?.map fun s => (s, r.2)

end ProjectIndex.Xml
