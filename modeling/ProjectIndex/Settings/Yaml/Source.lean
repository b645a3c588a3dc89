/-!
Places in a YAML source. A place counts bytes, lines and columns; a carriage return, a line feed, both
together, and the line ends of Unicode each end a line.
-/
namespace ProjectIndex.Yaml

def isSpaceOrTab (c : Char) : Bool := c == ' ' || c == '\t'

def isBreak (c : Char) : Bool :=
  c == '\n' || c == '\r' || c == '\u0085' || c == '\u2028' || c == '\u2029'

def isGap (c : Char) : Bool := isSpaceOrTab c || isBreak c

def endsWord : List Char → Bool
  | [] => true
  | c :: _ => isGap c

/-- How a line end is read: all but two of them as a line feed. -/
def breakText (c : Char) : Char := if c == '\u2028' || c == '\u2029' then c else '\n'

def breaksOf : List Char → List Char
  | [] => []
  | '\r' :: '\n' :: rest => '\n' :: breaksOf rest
  | c :: rest => if isBreak c then breakText c :: breaksOf rest else breaksOf rest

/-- A run of blanks and line ends inside a scalar: blanks are kept, one line end becomes a space, and
of more the first is dropped. Behind an escaped line end all others are kept. -/
def joint (escaped : Bool) (run : List Char) : List Char :=
  match breaksOf run with
  | [] => if escaped then [] else run
  | c :: more =>
    if escaped || c != '\n' then c :: more else if more.isEmpty then [' '] else more

structure Mark where
  offset : Nat := 0
  line : Nat := 0
  column : Nat := 0
deriving DecidableEq, Inhabited, Repr

def Mark.past (m : Mark) : List Char → Mark
  | [] => m
  | '\r' :: '\n' :: rest => (⟨m.offset + 2, m.line + 1, 0⟩ : Mark).past rest
  | c :: rest =>
    (if isBreak c then ⟨m.offset + c.utf8Size, m.line + 1, 0⟩
      else ⟨m.offset + c.utf8Size, m.line, m.column + 1⟩ : Mark).past rest

structure Source extends Mark where
  rest : List Char
deriving Inhabited, Repr

namespace Source

def ofText (text : List Char) : Source := { rest := text }

def head? (s : Source) : Option Char := s.rest.head?

def drop (s : Source) (n : Nat) : Source :=
  { s.toMark.past (s.rest.take n) with rest := s.rest.drop n }

def goTo (s : Source) (rest : List Char) : Source := s.drop (s.rest.length - rest.length)

def skipWhile (s : Source) (p : Char → Bool) : Source := s.drop (s.rest.takeWhile p).length

def skipBreak (s : Source) : List Char × Source :=
  match s.rest with
  | '\r' :: '\n' :: _ => (['\n'], s.drop 2)
  | c :: _ => if isBreak c then ([breakText c], s.drop 1) else ([], s)
  | [] => ([], s)

def atLineEnd (s : Source) : Bool := s.rest.isEmpty || s.head?.any isBreak

def restOfLine? (s : Source) : Option Source :=
  let t := s.skipWhile isSpaceOrTab
  let t := if t.head? == some '#' then t.skipWhile (!isBreak ·) else t
  if t.atLineEnd then some t.skipBreak.2 else none

def atMarker (s : Source) (c : Char) : Bool :=
  s.column == 0 && [c, c, c].isPrefixOf s.rest && endsWord (s.rest.drop 3)

/-- Goes over blanks, line ends and comments, and says whether a line end was met. Where lines are
indented a tab at their start stops it; `tabs` says whether one may come first. -/
def toText (indented : Bool) : Nat → Bool → Source → Source × Bool
  | 0, _, s => (s, false)
  | fuel + 1, tabs, s =>
    let s := if s.column == 0 && s.head? == some '\ufeff' then s.drop 1 else s
    let s := s.skipWhile fun c => c == ' ' || (tabs && c == '\t')
    let s := if s.head? == some '#' then s.skipWhile (!isBreak ·) else s
    if s.head?.any isBreak then ((s.skipBreak.2).toText indented fuel (!indented) |>.1, true)
    else (s, false)

end Source
end ProjectIndex.Yaml
