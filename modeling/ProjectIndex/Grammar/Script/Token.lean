import ProjectIndex.Grammar.Cursor
import ProjectIndex.Text.Blank

/-!
Tokens of a script. Strings and regular expressions are one token each and carry the shape of their
inside; a template string is a run of tokens, because the code of its substitutions stands between
them. A slash opens a regular expression where a value cannot have just ended: behind the head of a
loop or condition, and behind a block, a statement begins.
-/
namespace ProjectIndex.Script

inductive TokenClass where
  | word
  | privateName
  | number
  | literal
  | mark
  | templatePart
  | comment
  | interpreter
  | stray
deriving DecidableEq, Inhabited, Repr

structure Token where
  cls : TokenClass
  text : String
  shape : Shape
  onNewLine : Bool
  near : List Shape := []
deriving Inhabited, Repr

namespace Token

def start (t : Token) : Nat := t.shape.start

def stop (t : Token) : Nat := t.shape.stop

def named (t : Token) (kind : String) : Shape := .named kind t.start t.stop

def isMark (t : Token) (text : String) : Bool := t.cls == .mark && t.text == text

def isWord (t : Token) (text : String) : Bool := t.cls == .word && t.text == text

end Token

def marks : List String :=
  [">>>=", "...", "===", "!==", "**=", "<<=", ">>=", ">>>", "&&=", "||=", "??=", "=>", "==", "!=",
    "<=", ">=", "&&", "||", "??", "?.", "++", "--", "+=", "-=", "*=", "/=", "%=", "&=", "|=", "^=",
    "<<", ">>", "**", "\x7b", "\x7d", "(", ")", "[", "]", ";", ",", "<", ">", "+", "-", "*", "/",
    "%", "&", "|", "^", "!", "~", "?", ":", "=", ".", "@"]

/-- Words after which an expression begins, so that a slash opens a regular expression. -/
def wordsBeforeOperand : List String :=
  ["return", "typeof", "instanceof", "in", "of", "new", "delete", "void", "throw", "case", "do",
    "else", "await", "yield"]

def isLetter (c : Char) : Bool :=
  c.isAlpha || c == '_' || c == '$' ||
    (c.toNat ≥ 127 && !Text.isBlank c && c != '\ufeff' && c != '\u2060' && c != '\u200b')

def isWordPart (c : Char) : Bool := isLetter c || c.isDigit

def Token.endsValue (t : Token) : Bool :=
  match t.cls with
  | .word => !wordsBeforeOperand.contains t.text
  | .privateName => true
  | .number => true
  | .literal => true
  | .templatePart => t.text == "`"
  | .mark => [")", "]", "\x7d", "++", "--"].contains t.text
  | .comment => false
  | .interpreter => false
  | .stray => false

def isHex (c : Char) : Bool := c.isDigit || ('a' ≤ c && c ≤ 'f') || ('A' ≤ c && c ≤ 'F')

def nameEscape : List Char → Nat
  | '\\' :: 'u' :: '\x7b' :: rest =>
    let digits := (rest.takeWhile isHex).length
    if 0 < digits && (rest.drop digits).head? == some '\x7d' then digits + 4 else 0
  | '\\' :: 'u' :: rest => if ((rest.take 4).takeWhile isHex).length = 4 then 6 else 0
  | _ => 0

def nameLength : Nat → List Char → Nat
  | 0, _ => 0
  | _ + 1, [] => 0
  | fuel + 1, c :: rest =>
    if isWordPart c then nameLength fuel rest + 1
    else
      let n := nameEscape (c :: rest)
      if n = 0 then 0 else nameLength fuel ((c :: rest).drop n) + n

def startsName (s : List Char) : Bool := s.head?.any isLetter || nameEscape s != 0

def escape (c : Cursor) : Cursor :=
  match c.rest.drop 1 with
  | 'x' :: _ => (c.advance 2).advance (((c.rest.drop 2).take 2).takeWhile isHex).length
  | 'u' :: '\x7b' :: _ => ((c.advance 3).past? "\x7d").getD (c.advance 3)
  | 'u' :: _ => (c.advance 2).advance (((c.rest.drop 2).take 4).takeWhile isHex).length
  | '\x0d' :: '\n' :: _ => c.advance 3
  | d :: _ =>
    if '0' ≤ d && d ≤ '7' then
      c.advance (1 + ((c.rest.drop 1).take 3 |>.takeWhile fun x => '0' ≤ x && x ≤ '7').length)
    else c.advance 2
  | [] => c.advance 1

def stringParts (quote : Char) : Nat → Cursor → Option (List Shape × Cursor)
  | 0, _ => none
  | fuel + 1, c =>
    match c.rest with
    | [] => none
    | x :: _ =>
      if x == quote then
        let d := c.advance 1
        some ([.token (String.singleton quote) c.pos d.pos], d)
      else if x == '\n' then none
      else
        let d := if x == '\\' then escape c
          else c.skipWhile fun y => y != quote && y != '\\' && y != '\n'
        let kind := if x == '\\' then "escape_sequence" else "string_fragment"
        (stringParts quote fuel d).map fun r => (.named kind c.pos d.pos :: r.1, r.2)

def string? (quote : Char) (fuel : Nat) (c : Cursor) : Option (Shape × Cursor) :=
  let inside := c.advance 1
  (stringParts quote fuel inside).map fun r =>
    (.spanning "string" (.token (String.singleton quote) c.pos inside.pos :: r.1), r.2)

def patternEnd? : Nat → Bool → Cursor → Option Cursor
  | 0, _, _ => none
  | fuel + 1, inClass, c =>
    match c.rest with
    | [] => none
    | '\n' :: _ => none
    | '\\' :: _ => patternEnd? fuel inClass (c.advance 2)
    | '[' :: _ => patternEnd? fuel true (c.advance 1)
    | ']' :: _ => patternEnd? fuel false (c.advance 1)
    | '/' :: _ => if inClass then patternEnd? fuel inClass (c.advance 1) else some c
    | _ :: _ => patternEnd? fuel inClass (c.advance 1)

def regex? (fuel : Nat) (c : Cursor) : Option (Shape × Cursor) :=
  let inside := c.advance 1
  (patternEnd? fuel false inside).bind fun d =>
    if d.pos = inside.pos then none
    else
      let behind := d.advance 1
      let last := behind.skipWhile Char.isAlpha
      let flags := if last.pos = behind.pos then [] else [.named "regex_flags" behind.pos last.pos]
      some (.spanning "regex"
        ([.token "/" c.pos inside.pos, .named "regex_pattern" inside.pos d.pos,
          .token "/" d.pos behind.pos] ++ flags), last)

def number (c : Cursor) : Cursor :=
  let radix := ["0x", "0X", "0o", "0O", "0b", "0B"].any c.startsWith
  if radix then c.skipWhile isWordPart
  else
    let digits := fun (d : Cursor) => d.skipWhile fun x => x.isDigit || x == '_'
    let whole := digits c
    let fraction := match whole.accept? "." with
      | some d => digits d
      | none => whole
    let exponent := match (fraction.accept? "e").or (fraction.accept? "E") with
      | some d =>
        let signed := ((d.accept? "+").or (d.accept? "-")).getD d
        let last := digits signed
        if last.pos = signed.pos then fraction else last
      | none => fraction
    (exponent.accept? "n").getD exponent

def endsLine (c : Char) : Bool := c == '\n' || c == '\x0d' || c == '\u2028' || c == '\u2029'

/-- A comment and its kind. Where no value has ended, the marks of a comment in a web page begin one
too. -/
def comment? (afterValue : Bool) (c : Cursor) : Option (String × Cursor) :=
  let toLineEnd := fun (kind : String) => some (kind, c.skipWhile (!endsLine ·))
  if c.startsWith "//" then toLineEnd "comment"
  else if c.startsWith "/*" then ((c.advance 2).past? "*/").map fun d => ("comment", d)
  else if !afterValue && (c.startsWith "<!--" || c.startsWith "-->") then toLineEnd "html_comment"
  else none

inductive Opened where
  | brace (block : Bool)
  | parenthesis (head : Bool)
  | substitution
deriving DecidableEq, Repr

structure Progress where
  inTemplate : Bool := false
  opened : List Opened := []
  afterValue : Bool := false
  last : Option Token := none
deriving Repr

namespace Progress

def initial : Progress := {}

def atBlock (p : Progress) : Bool :=
  match p.last with
  | none => true
  | some t =>
    match t.cls with
    | .word => !wordsBeforeOperand.contains t.text || t.text == "else" || t.text == "do"
    | .mark =>
      if t.text == ":" then p.opened.head? == some (.brace true)
      else if t.text == "\x7d" then !p.afterValue
      else [";", "\x7b", ")", "=>"].contains t.text
    | _ => false

def atHead (p : Progress) : Bool :=
  p.last.any fun t => t.cls == .word && ["if", "while", "for", "with", "await"].contains t.text

def next (p : Progress) (t : Token) : Progress :=
  let q := { p with last := some t }
  if t.cls == .comment then p
  else if t.cls == .templatePart then { q with inTemplate := true }
  else if t.isMark "\x7b" then
    { q with opened := .brace p.atBlock :: p.opened, afterValue := false }
  else if t.isMark "(" then
    { q with opened := .parenthesis p.atHead :: p.opened, afterValue := false }
  else if t.isMark "\x7d" || t.isMark ")" then
    match p.opened with
    | .substitution :: rest => { q with inTemplate := true, opened := rest, afterValue := true }
    | .brace block :: rest => { q with opened := rest, afterValue := !block }
    | .parenthesis head :: rest => { q with opened := rest, afterValue := !head }
    | [] => { q with afterValue := true }
  else
    let isMember := p.last.any fun u => u.isMark "." || u.isMark "?."
    { q with afterValue := t.endsValue || (t.cls == .word && isMember) }

end Progress

def codeToken (afterValue onNewLine : Bool) (fuel : Nat) (c : Cursor) : Token × Cursor :=
  let plain := fun (cls : TokenClass) (text : List Char) =>
    let d := c.advance text.length
    let text := String.ofList text
    (({ cls, text, shape := .token text c.pos d.pos, onNewLine } : Token), d)
  let literal := fun (r : Shape × Cursor) =>
    (({ cls := .literal, text := r.1.kind, shape := r.1, onNewLine } : Token), r.2)
  let mark := fun (_ : Unit) =>
    match marks.find? c.startsWith with
    | some m =>
      let isCondition := m == "?." && (c.rest.drop 2).head?.any Char.isDigit
      plain .mark (if isCondition then ['?'] else m.toList)
    | none => plain .stray (c.rest.take 1)
  match c.rest with
  | [] => plain .stray []
  | x :: rest =>
    if startsName c.rest then plain .word (c.rest.take (nameLength fuel c.rest))
    else if x == '#' && startsName rest then
      plain .privateName (c.rest.take (nameLength fuel rest + 1))
    else if x.isDigit || (x == '.' && (rest.head?.map Char.isDigit).getD false) then
      let d := number c
      ({ cls := .number, text := String.singleton x, shape := .named "number" c.pos d.pos,
         onNewLine }, d)
    else if x == '\x27' || x == '\x22' then
      match string? x fuel c with
      | some r => literal r
      | none => plain .stray [x]
    else if x == '\x60' then plain .templatePart [x]
    else
      match comment? afterValue c with
      | some (kind, d) =>
        ({ cls := .comment, text := "", shape := .named kind c.pos d.pos, onNewLine }, d)
      | none =>
        if x == '/' && !afterValue then
          match regex? fuel c with
          | some r => literal r
          | none => mark ()
        else mark ()

def templateToken (c : Cursor) : Token × Cursor :=
  let part := fun (text : String) (shape : Nat → Nat → Shape) (d : Cursor) =>
    (({ cls := .templatePart, text, shape := shape c.pos d.pos, onNewLine := false } : Token), d)
  if c.startsWith "`" then part "`" (.token "`") (c.advance 1)
  else if c.startsWith "$\x7b" then part "$\x7b" (.token "$\x7b") (c.advance 2)
  else if c.startsWith "\\" then part "escape" (.named "escape_sequence") (escape c)
  else
    let d := c.advance 1
    part "text" (.named "string_fragment")
      (d.advance (plainRun d.rest).length)
where
  plainRun : List Char → List Char
    | [] => []
    | '\x60' :: _ => []
    | '\\' :: _ => []
    | '$' :: '\x7b' :: _ => []
    | x :: rest => x :: plainRun rest

def isGap (c : Char) : Bool :=
  Text.isBlank c || c == '\ufeff' || c == '\u2060' || c == '\u200b'

def tokensFrom : Nat → Progress → Cursor → List Token
  | 0, _, _ => []
  | fuel + 1, p, c =>
    if p.inTemplate then
      if c.rest.isEmpty then []
      else
        let r := templateToken c
        let p := if r.1.text == "`" then { p with inTemplate := false, afterValue := true }
          else if r.1.text == "$\x7b" then
            { p with inTemplate := false, opened := .substitution :: p.opened, afterValue := false }
          else p
        r.1 :: tokensFrom fuel p r.2
    else
      let d := c.skipWhile isGap
      if d.rest.isEmpty then []
      else
        let onNewLine := (c.rest.takeWhile isGap).contains '\n'
        let r := codeToken p.afterValue onNewLine (fuel + 1) d
        r.1 :: tokensFrom fuel (p.next r.1) r.2

def tokens (src : Source) : List Token :=
  let start := (Cursor.ofSource src).skipWhile isGap
  if start.startsWith "#!" then
    let stop := start.toLineEnd
    { cls := .interpreter, text := "", shape := .named "hash_bang_line" start.pos stop.pos,
      onNewLine := false } :: tokensFrom (src.length + 1) .initial stop
  else tokensFrom (src.length + 1) .initial (Cursor.ofSource src)

/-- The tokens that are no comments, and the comments that end the source on the line of the last token.
A line break before a comment stands before the next token. -/
def withoutComments : List Token → List Token × List Shape
  | [] => ([], [])
  | t :: ts =>
    let (rest, near) := withoutComments ts
    if t.cls != .comment then (t :: rest, near)
    else
      let behind := fun (cs : List Shape) => if t.onNewLine then [] else t.shape :: cs
      match rest with
      | u :: us =>
        ({ u with near := behind u.near, onNewLine := u.onNewLine || t.onNewLine } :: us, near)
      | [] => ([], behind near)

end ProjectIndex.Script
