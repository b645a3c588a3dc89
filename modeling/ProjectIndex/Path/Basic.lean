import ProjectIndex.Text.Search

/-!
Slash-separated paths. A path is kept as it was written; its components give its meaning. Two
spellings with the same components name the same place, but they remain different keys.

A path need not be text. It is given here by what decoding shows of it, and this is also the key that
records and facts are stored under; paths of which decoding shows the same are not told apart. Which
names are no text is known to the files (`FileTree.illFormed`).
-/
namespace ProjectIndex

/-- A path as written. -/
structure Path where
  text : List Char
deriving DecidableEq, Inhabited, Repr

namespace Path

/-- One step of a path. Only a leading `.` is a component; elsewhere it is ignored. -/
inductive Component where
  | root
  | current
  | parent
  | normal (name : List Char)
deriving DecidableEq, Inhabited, Repr

def ofString (s : String) : Path := ⟨s.toList⟩

def toString (p : Path) : String := String.ofList p.text

instance : ToString Path := ⟨toString⟩

def isAbsolute (p : Path) : Bool := p.text.head? == some '/'

def segmentComponent? (segment : List Char) : Option Component :=
  if segment = [] || segment = ['.'] then none
  else if segment = ['.', '.'] then some .parent
  else some (.normal segment)

def components (p : Path) : List Component :=
  match p.text with
  | '/' :: rest => .root :: (Text.splitOn '/' rest).filterMap segmentComponent?
  | text =>
    match Text.splitOn '/' text with
    | ['.'] :: rest => .current :: rest.filterMap segmentComponent?
    | segments => segments.filterMap segmentComponent?

def headAndBody (p : Path) : List Char × List Char :=
  match p.text with
  | '/' :: rest => (['/'], rest)
  | text =>
    if text = ['.'] || ['.', '/'].isPrefixOf text then (['.'], text.drop 1) else ([], text)

def dropEmptySegments (segments : List (List Char)) : List (List Char) :=
  (segments.reverse.dropWhile fun s => (segmentComponent? s).isNone).reverse

def parent? (p : Path) : Option Path :=
  let segments := dropEmptySegments (Text.splitOn '/' p.headAndBody.2)
  if segments.isEmpty then
    if p.headAndBody.1 = ['.'] then some ⟨[]⟩ else none
  else some ⟨p.headAndBody.1 ++ Text.joinWith ['/'] (dropEmptySegments segments.dropLast)⟩

def ancestorsUpTo : Nat → Path → List Path
  | 0, _ => []
  | n + 1, p =>
    match p.parent? with
    | none => []
    | some q => q :: ancestorsUpTo n q

def ancestors (p : Path) : List Path := ancestorsUpTo (p.text.length + 1) p

def fileName? (p : Path) : Option (List Char) :=
  match p.components.getLast? with
  | some (.normal name) => some name
  | _ => none

/-- Cuts a file name at its last dot; a dot in front of the name does not count. -/
def cutExtension (name : List Char) : List Char × Option (List Char) :=
  match name.reverse.dropWhile (· != '.') with
  | [] => (name, none)
  | [_] => (name, none)
  | _ :: stem => (stem.reverse, some (name.reverse.takeWhile (· != '.')).reverse)

def extension? (p : Path) : Option (List Char) := p.fileName?.bind fun name => (cutExtension name).2

def stem? (p : Path) : Option (List Char) := p.fileName?.map fun name => (cutExtension name).1

/-- `q` read from `p`: an absolute `q` replaces `p`. -/
def join (p q : Path) : Path :=
  if q.isAbsolute then q
  else if p.text = [] || p.text.getLast? = some '/' then ⟨p.text ++ q.text⟩
  else ⟨p.text ++ '/' :: q.text⟩

def slashed (p : Path) : List Char := p.text.map fun c => if c = '\\' then '/' else c

def folded (p : Path) : Path :=
  p.components.foldl (fun out c =>
    match c with
    | .current => out
    | .parent => out.parent?.getD out
    | .root => ⟨['/']⟩
    | .normal name => out.join ⟨name⟩) ⟨[]⟩

end Path
end ProjectIndex
