import ProjectIndex.Settings.Yaml.Source

/-!
The scalars of YAML: plain ones, which may go on over several lines, quoted ones, and block scalars,
whose lines are told by their indentation.
-/
namespace ProjectIndex.Yaml

inductive Style where
  | plain
  | quoted
  | literal
  | folded
deriving DecidableEq, Inhabited, Repr

def flowMarks : List Char := [',', '[', ']', '\x7b', '\x7d']

/-- The characters of a plain scalar up to the next blank. Inside a flow collection a colon may not
stand before a mark. -/
def plainWord (inFlow : Bool) : List Char → Option (List Char)
  | [] => some []
  | c :: rest =>
    if isGap c then some []
    else if inFlow && c == ':' && rest.head?.any (('?' :: flowMarks).contains ·) then none
    else if (c == ':' && endsWord rest) || (inFlow && flowMarks.contains c) then some []
    else (plainWord inFlow rest).map (c :: ·)

def tabsBefore (least : Nat) (crossed : Bool) (column : Nat) : List Char → Bool
  | [] => false
  | c :: rest =>
    if isBreak c then tabsBefore least true 0 rest
    else (crossed && column < least && c == '\t') || tabsBefore least crossed (column + 1) rest

/-- The rest of a plain scalar behind `gap`, which goes on over lines that begin at `least` or further
right; `true` if a line end follows it. -/
def plainFrom (inFlow : Bool) (least : Nat) :
    Nat → List Char → Source → Option (List Char × Bool × Source)
  | 0, _, _ => none
  | fuel + 1, gap, s => do
    let ended := some ([], gap.any isBreak, s)
    if s.atMarker '-' || s.atMarker '.' || s.head? == some '#' then ended
    else
      let word ← plainWord inFlow s.rest
      if word.isEmpty then ended
      else
        let taken := joint false gap ++ word
        let s := s.drop word.length
        let run := s.rest.takeWhile isGap
        let next := s.drop run.length
        if run.isEmpty then some (taken, false, s)
        else if tabsBefore least false s.column run then none
        else if !inFlow && next.column < least then some (taken, run.any isBreak, next)
        else
          let (more, crossed, s) ← plainFrom inFlow least fuel run next
          some (taken ++ more, crossed, s)

def plain? (inFlow : Bool) (least : Nat) (s : Source) : Option (List Char × Bool × Source) :=
  plainFrom inFlow least (s.rest.length + 1) [] s

def hexValue (digits : List Char) : Option Nat :=
  digits.foldl (fun v c => v.bind fun v =>
    let d := c.toNat
    if c.isDigit then some (v * 16 + (d - 48))
    else if 'a' ≤ c && c ≤ 'f' then some (v * 16 + (d - 87))
    else if 'A' ≤ c && c ≤ 'F' then some (v * 16 + (d - 55))
    else none) (some 0)

def escapes : List (Char × Char) :=
  [('0', '\x00'), ('a', '\x07'), ('b', '\x08'), ('t', '\t'), ('\t', '\t'), ('n', '\n'),
    ('v', '\x0b'), ('f', '\x0c'), ('r', '\r'), ('e', '\x1b'), (' ', ' '), ('"', '"'), ('/', '/'),
    ('\\', '\\'), ('N', '\u0085'), ('_', '\u00a0'), ('L', '\u2028'), ('P', '\u2029')]

def escapeWidth? : Char → Option Nat
  | 'x' => some 2
  | 'u' => some 4
  | 'U' => some 8
  | _ => none

def escape? : List Char → Option (Char × List Char)
  | [] => none
  | c :: rest =>
    match escapeWidth? c with
    | none => (escapes.lookup c).map fun d => (d, rest)
    | some width => do
      let v ← hexValue (rest.take width)
      if width ≤ rest.length && v.isValidChar then some (Char.ofNat v, rest.drop width) else none

structure Piece where
  text : List Char
  escaped : Bool
  rest : List Char

def singleWord : List Char → Piece
  | '\x27' :: '\x27' :: rest =>
    let p := singleWord rest
    { p with text := '\x27' :: p.text }
  | [] => ⟨[], false, []⟩
  | c :: rest =>
    if c == '\x27' || isGap c then ⟨[], false, c :: rest⟩
    else
      let p := singleWord rest
      { p with text := c :: p.text }

def doubleWord : Nat → List Char → Option Piece
  | 0, rest => some ⟨[], false, rest⟩
  | _ + 1, [] => some ⟨[], false, []⟩
  | fuel + 1, c :: rest =>
    if c == '"' || isGap c then some ⟨[], false, c :: rest⟩
    else if c == '\\' then
      if rest.head?.any isBreak then some ⟨[], true, (Source.ofText rest).skipBreak.2.rest⟩
      else do
        let (d, rest) ← escape? rest
        let p ← doubleWord fuel rest
        some { p with text := d :: p.text }
    else do
      let p ← doubleWord fuel rest
      some { p with text := c :: p.text }

/-- A quoted scalar up to behind its closing quote. No mark of a document may stand inside. -/
def quotedFrom (quote : Char) : Nat → Source → Option (List Char × Source)
  | 0, _ => none
  | fuel + 1, s => do
    if s.atMarker '-' || s.atMarker '.' || s.rest.isEmpty then none
    else
      let p ← if quote == '"' then doubleWord s.rest.length s.rest else some (singleWord s.rest)
      let s := s.goTo p.rest
      if s.head? == some quote then some (p.text, s.drop 1)
      else
        let run := s.rest.takeWhile isGap
        let (more, s) ← quotedFrom quote fuel (s.drop run.length)
        some (p.text ++ joint p.escaped run ++ more, s)

def quoted? (s : Source) : Option (List Char × Source) :=
  s.head?.bind fun quote => quotedFrom quote (s.rest.length + 1) (s.drop 1)

inductive Chomping where
  | clip
  | strip
  | keep
deriving DecidableEq, Inhabited, Repr

def chomping? : Char → Option Chomping
  | '+' => some .keep
  | '-' => some .strip
  | _ => none

def indentation? (c : Char) : Option Nat := if c.isDigit then some (c.toNat - 48) else none

def blockHeader (rest : List Char) : Chomping × Option Nat × Nat :=
  let first := rest.head?
  let second := (rest.drop 1).head?
  match first.bind chomping?, first.bind indentation? with
  | some c, _ =>
    match second.bind indentation? with
    | some d => (c, some d, 2)
    | none => (c, none, 1)
  | none, some d =>
    match second.bind chomping? with
    | some c => (c, some d, 2)
    | none => (.clip, some d, 1)
  | none, none => (.clip, none, 0)

/-- Goes over indentation and empty lines: the line ends met, and the furthest column reached. Without
an `indent` all leading spaces count as indentation, and a tab may not follow them. -/
def blockGap (indent : Option Nat) : Nat → Source → Option (List Char × Nat × Source)
  | 0, _ => none
  | fuel + 1, s =>
    let spaces := (s.rest.takeWhile (· == ' ')).length
    let t := s.drop ((indent.map fun n => min spaces (n - s.column)).getD spaces)
    if t.head? == some '\t' && indent.all (t.column < ·) then none
    else if t.head?.any isBreak then do
      let (lineEnd, next) := t.skipBreak
      let (more, furthest, s) ← blockGap indent fuel next
      some (lineEnd ++ more, max t.column furthest, s)
    else some ([], t.column, t)

/-- The lines of a block scalar behind the line end `lead` and the empty lines `gap`. A folded line end
becomes a space, unless empty lines follow it or a line beside it begins with a blank. The text is
returned with the last line end and the empty lines behind it. -/
def blockLines (folds : Bool) (indent : Nat) :
    Nat → List Char → Bool → List Char → Source →
      Option (List Char × List Char × List Char × Source)
  | 0, _, _, _, _ => none
  | fuel + 1, lead, afterBlank, gap, s => do
    if s.column != indent || s.rest.isEmpty then some ([], lead, gap, s)
    else
      let blank := s.head?.any isSpaceOrTab
      let joined :=
        if folds && lead == ['\n'] && !afterBlank && !blank then
          if gap.isEmpty then [' '] else []
        else lead
      let line := s.rest.takeWhile (!isBreak ·)
      let (nextLead, t) := (s.drop line.length).skipBreak
      let (nextGap, _, t) ← blockGap (some indent) (t.rest.length + 1) t
      let (more, ending) ← blockLines folds indent fuel nextLead blank nextGap t
      some (joined ++ gap ++ line ++ more, ending)

def block? (folds : Bool) (least : Nat) (s : Source) : Option (List Char × Source) := do
  let (chomping, given, width) := blockHeader (s.rest.drop 1)
  if given == some 0 then none
  else
    let s ← (s.drop (1 + width)).restOfLine?
    let given := given.map fun d => max least 1 - 1 + d
    let (gap, furthest, s) ← blockGap given (s.rest.length + 1) s
    let indent := given.getD (max furthest (max least 1))
    let (text, lead, gap, s) ← blockLines folds indent (s.rest.length + 1) [] false gap s
    some (match chomping with
      | .clip => text ++ lead
      | .strip => text
      | .keep => text ++ lead ++ gap, s)

end ProjectIndex.Yaml
