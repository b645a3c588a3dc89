import ProjectIndex.Settings.Yaml.Scalar

/-!
The tokens of a YAML source. Where lines are indented, columns open and close block collections. That
a text is a key shows only at the colon behind it, so the tokens that announce a key are put in front
of it afterwards; it must begin on the same line, at most 1024 bytes before the colon.
-/
namespace ProjectIndex.Yaml

abbrev TagName := List UInt8

inductive Token where
  | version (major minor : Nat)
  | tagHandle (handle : List Char) (expansion : TagName)
  | documentStart
  | documentEnd
  | indentedList
  | indentedMap
  | dedent
  | listOpen
  | listClose
  | mapOpen
  | mapClose
  | dash
  | comma
  | key
  | colon
  | anchor (name : List Char)
  | reference (name : List Char)
  | tag (handle : List Char) (suffix : TagName)
  | scalar (style : Style) (text : List Char)
deriving DecidableEq, Inhabited, Repr

/-- Where a key may have begun. -/
structure PossibleKey where
  mark : Mark
  number : Nat
  required : Bool
deriving Inhabited, Repr

structure Scanner where
  source : Source
  tokens : Array Token := #[]
  indents : List Nat := []
  keyAllowed : Bool := true
  possibleKey : Option PossibleKey := none
  outerKeys : List (Option PossibleKey) := []
deriving Inhabited, Repr

namespace Scanner

def inFlow (s : Scanner) : Bool := !s.outerKeys.isEmpty

def column (s : Scanner) : Nat := s.source.column

def least (s : Scanner) : Nat := (s.indents.head?.map (· + 1)).getD 0

def emit (s : Scanner) (t : Token) (n : Nat) : Scanner :=
  { s with tokens := s.tokens.push t, source := s.source.drop n }

def emitTo (s : Scanner) (t : Token) (source : Source) : Scanner :=
  { s with tokens := s.tokens.push t, source }

def dedentTo (s : Scanner) (stays : Nat → Bool) : Scanner :=
  if s.inFlow then s
  else
    let closed := s.indents.takeWhile (!stays ·)
    { s with
      indents := s.indents.drop closed.length
      tokens := s.tokens ++ Array.replicate closed.length .dedent }

def insertAt (s : Scanner) (number : Nat) (new : List Token) : Scanner :=
  { s with
    tokens := s.tokens.extract 0 number ++ new.toArray ++ s.tokens.extract number s.tokens.size }

def indentAt (s : Scanner) (column number : Nat) (opening : Token) (tokens : List Token) : Scanner :=
  if !s.inFlow && s.indents.head?.all (· < column) then
    { s.insertAt number (opening :: tokens) with indents := column :: s.indents }
  else s.insertAt number tokens

def dropKey? (s : Scanner) : Option Scanner :=
  if s.possibleKey.any PossibleKey.required then none else some { s with possibleKey := none }

def noteKey? (s : Scanner) : Option Scanner :=
  if s.keyAllowed then do
    let t ← s.dropKey?
    some { t with
      possibleKey := some {
        mark := s.source.toMark
        number := s.tokens.size
        required := !s.inFlow && s.indents.head? == some s.column } }
  else some s

/-- A possible key that its line or 1024 bytes have left behind is none. -/
def freshKey? (m : Mark) : Option PossibleKey → Option (Option PossibleKey)
  | none => some none
  | some k =>
    if k.mark.line < m.line || k.mark.offset + 1024 < m.offset then
      if k.required then none else some none
    else some (some k)

def freshKeys? (s : Scanner) : Option Scanner := do
  let possibleKey ← freshKey? s.source.toMark s.possibleKey
  let outerKeys ← s.outerKeys.mapM (freshKey? s.source.toMark)
  some { s with possibleKey, outerKeys }

def toText (s : Scanner) : Scanner :=
  let (source, crossed) :=
    s.source.toText (!s.inFlow) (s.source.rest.length + 1) (s.inFlow || !s.keyAllowed)
  { s with source, keyAllowed := s.keyAllowed || (crossed && !s.inFlow) }

def atTop? (s : Scanner) : Option Scanner := do
  let s ← (s.dedentTo fun _ => false).dropKey?
  some { s with keyAllowed := false }

def openFlow? (s : Scanner) (t : Token) : Option Scanner := do
  let s ← s.noteKey?
  some { s.emit t 1 with
    possibleKey := none, outerKeys := s.possibleKey :: s.outerKeys, keyAllowed := true }

def closeFlow? (s : Scanner) (t : Token) : Option Scanner := do
  let s ← s.dropKey?
  let s := { s.emit t 1 with keyAllowed := false }
  match s.outerKeys with
  | [] => some s
  | k :: outer => some { s with possibleKey := k, outerKeys := outer }

def comma? (s : Scanner) : Option Scanner := do
  let s ← s.dropKey?
  some { s.emit .comma 1 with keyAllowed := true }

def dash? (s : Scanner) : Option Scanner :=
  if s.inFlow || s.keyAllowed then do
    let s := if s.inFlow then s else s.indentAt s.column s.tokens.size .indentedList []
    let s ← s.dropKey?
    some { s.emit .dash 1 with keyAllowed := true }
  else none

def explicitKey? (s : Scanner) : Option Scanner :=
  if s.inFlow || s.keyAllowed then do
    let s := s.indentAt s.column s.tokens.size .indentedMap []
    let s ← s.dropKey?
    some { s.emit .key 1 with keyAllowed := !s.inFlow }
  else none

def colon? (s : Scanner) : Option Scanner :=
  match s.possibleKey with
  | some k =>
    let s := s.indentAt k.mark.column k.number .indentedMap [.key]
    some { s.emit .colon 1 with possibleKey := none, keyAllowed := false }
  | none =>
    if s.inFlow || s.keyAllowed then
      let s := s.indentAt s.column s.tokens.size .indentedMap []
      some { s.emit .colon 1 with keyAllowed := !s.inFlow }
    else none

def isNameChar (c : Char) : Bool := c.isAlphanum || c == '_' || c == '-'

def anchorName? (rest : List Char) : Option (List Char) :=
  let name := rest.takeWhile isNameChar
  let behind := rest.drop name.length
  if !name.isEmpty &&
      (endsWord behind || behind.head?.any (['?', ':', ',', ']', '\x7d', '%', '@', '\x60'].contains ·))
  then some name else none

def property? (s : Scanner) : Option Scanner := do
  let s ← s.noteKey?
  some { s with keyAllowed := false }

def anchor? (s : Scanner) (token : List Char → Token) : Option Scanner := do
  let s ← s.property?
  let name ← anchorName? (s.source.rest.drop 1)
  some (s.emit (token name) (name.length + 1))

def escapedBytes? (rest : List Char) : Option (TagName × List Char) := do
  let byte? := fun (s : List Char) => match s with
    | '%' :: a :: b :: _ => (hexValue [a, b]).map UInt8.ofNat
    | _ => none
  let first ← byte? rest
  let width ←
    if first &&& 0x80 == 0 then some 1
    else if first &&& 0xE0 == 0xC0 then some 2
    else if first &&& 0xF0 == 0xE0 then some 3
    else if first &&& 0xF8 == 0xF0 then some 4
    else none
  let others ← (List.range (width - 1)).mapM fun i => byte? (rest.drop (3 * (i + 1)))
  if others.all (· &&& 0xC0 == 0x80) then some (first :: others, rest.drop (3 * width)) else none

def isUriChar (verbatim : Bool) (c : Char) : Bool :=
  isNameChar c || [';', '/', '?', ':', '@', '&', '=', '+', '$', '.', '%', '!', '~', '*', '\x27', '(',
    ')'].contains c || (verbatim && [',', '[', ']'].contains c)

def uri? (verbatim : Bool) : Nat → List Char → Option (TagName × List Char)
  | 0, rest => some ([], rest)
  | _ + 1, [] => some ([], [])
  | fuel + 1, c :: rest =>
    if !isUriChar verbatim c then some ([], c :: rest)
    else do
      let (bytes, rest) ←
        if c == '%' then escapedBytes? (c :: rest) else some ([c.toNat.toUInt8], rest)
      let (more, rest) ← uri? verbatim fuel rest
      some (bytes ++ more, rest)

def nameOf (bytes : TagName) : TagName := bytes.takeWhile (· != 0)

def someUri? (verbatim : Bool) (s : Source) : Option (TagName × Source) := do
  let (bytes, rest) ← uri? verbatim s.rest.length s.rest
  if bytes.isEmpty then none else some (nameOf bytes, s.goTo rest)

def handle? (rest : List Char) : Option (List Char) :=
  match rest with
  | '!' :: rest =>
    let name := rest.takeWhile isNameChar
    some ('!' :: name ++ if (rest.drop name.length).head? == some '!' then ['!'] else [])
  | _ => none

def asBytes (s : List Char) : TagName := s.map fun c => c.toNat.toUInt8

def tagParts? (s : Source) : Option (List Char × TagName × Source) := do
  if "!<".toList.isPrefixOf s.rest then
    let (name, s) ← someUri? true (s.drop 2)
    if s.head? == some '>' then some ([], name, s.drop 1) else none
  else
    let handle ← handle? s.rest
    let t := s.drop handle.length
    if 1 < handle.length && handle.getLast? == some '!' then
      let (suffix, t) ← someUri? false t
      some (handle, suffix, t)
    else
      let (bytes, rest) ← uri? false t.rest.length t.rest
      let suffix := nameOf (asBytes (handle.drop 1) ++ bytes)
      if suffix.isEmpty then some ([], asBytes ['!'], t.goTo rest)
      else some (['!'], suffix, t.goTo rest)

def tag? (s : Scanner) : Option Scanner := do
  let s ← s.property?
  let (handle, suffix, source) ← tagParts? s.source
  if endsWord source.rest || (s.inFlow && source.head? == some ',') then
    some (s.emitTo (.tag handle suffix) source)
  else none

def versionNumber? (s : Source) : Option (Nat × Source) :=
  let digits := s.rest.takeWhile Char.isDigit
  if digits.isEmpty || 9 < digits.length then none
  else some (digits.foldl (fun n c => n * 10 + (c.toNat - 48)) 0, s.drop digits.length)

def versionDirective? (s : Source) : Option (Token × Source) := do
  let (major, s) ← versionNumber? (s.skipWhile isSpaceOrTab)
  if s.head? == some '.' then
    let (minor, s) ← versionNumber? (s.drop 1)
    some (.version major minor, s)
  else none

def tagDirective? (s : Source) : Option (Token × Source) := do
  let s := s.skipWhile isSpaceOrTab
  let handle ← handle? s.rest
  let t := s.drop handle.length
  if handle.getLast? == some '!' && t.head?.any isSpaceOrTab then
    let (expansion, t) ← someUri? true (t.skipWhile isSpaceOrTab)
    if endsWord t.rest then some (.tagHandle handle expansion, t) else none
  else none

def directive? (s : Scanner) : Option Scanner := do
  let s ← s.atTop?
  let name := (s.source.rest.drop 1).takeWhile isNameChar
  let source := s.source.drop (name.length + 1)
  if endsWord source.rest then
    let (token, source) ← match String.ofList name with
      | "YAML" => versionDirective? source
      | "TAG" => tagDirective? source
      | _ => none
    let source ← source.restOfLine?
    some (s.emitTo token source)
  else none

def marker? (s : Scanner) (t : Token) : Option Scanner := do
  let s ← s.atTop?
  some (s.emit t 3)

def blockScalar? (s : Scanner) (style : Style) : Option Scanner := do
  let s ← s.dropKey?
  let (text, source) ← block? (style == .folded) s.least s.source
  some { s.emitTo (.scalar style text) source with keyAllowed := true }

def quotedScalar? (s : Scanner) : Option Scanner := do
  let s ← s.property?
  let (text, source) ← quoted? s.source
  some (s.emitTo (.scalar .quoted text) source)

def plainScalar? (s : Scanner) : Option Scanner := do
  let s ← s.property?
  let (text, crossed, source) ← plain? s.inFlow s.least s.source
  some { s.emitTo (.scalar .plain text) source with keyAllowed := crossed }

def startsPlain (s : Scanner) : Bool :=
  match s.source.rest with
  | [] => false
  | c :: rest =>
    if c == '-' then !rest.head?.any isSpaceOrTab
    else if c == '?' || c == ':' then !s.inFlow && !endsWord rest
    else !isGap c && !(flowMarks ++
      ['#', '&', '*', '!', '|', '>', '\x27', '"', '%', '@', '\x60']).contains c

def token? (s : Scanner) : Option Scanner :=
  let src := s.source
  let alone := endsWord (src.rest.drop 1)
  if s.column == 0 && src.head? == some '%' then s.directive?
  else if src.atMarker '-' then s.marker? .documentStart
  else if src.atMarker '.' then s.marker? .documentEnd
  else
    match src.head? with
    | some '[' => s.openFlow? .listOpen
    | some '\x7b' => s.openFlow? .mapOpen
    | some ']' => s.closeFlow? .listClose
    | some '\x7d' => s.closeFlow? .mapClose
    | some ',' => s.comma?
    | some '*' => s.anchor? .reference
    | some '&' => s.anchor? .anchor
    | some '!' => s.tag?
    | some '\x27' => s.quotedScalar?
    | some '"' => s.quotedScalar?
    | some c =>
      if c == '-' && alone then s.dash?
      else if c == '?' && (s.inFlow || alone) then s.explicitKey?
      else if c == ':' && (s.inFlow || alone) then s.colon?
      else if c == '|' && !s.inFlow then s.blockScalar? .literal
      else if c == '>' && !s.inFlow then s.blockScalar? .folded
      else if s.startsPlain then s.plainScalar?
      else none
    | none => none

def run? : Nat → Scanner → Option (Array Token)
  | 0, _ => none
  | fuel + 1, s => do
    let s ← s.toText.freshKeys?
    let s := s.dedentTo (· ≤ s.column)
    if s.source.rest.isEmpty then s.atTop?.map Scanner.tokens
    else
      let s ← s.token?
      run? fuel s

end Scanner

def isAllowed (c : Char) : Bool :=
  let n := c.toNat
  n == 9 || n == 10 || n == 13 || (0x20 ≤ n && n ≤ 0x7E) || n == 0x85 ||
    (0xA0 ≤ n && n != 0xFFFE && n != 0xFFFF)

def tokens? (src : List Char) : Option (List Token) :=
  if src.all isAllowed then
    (Scanner.run? (src.length + 1) { source := .ofText src }).map Array.toList
  else none

end ProjectIndex.Yaml
