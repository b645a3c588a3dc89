import ProjectIndex.Files.Basic

/-! Changes to the files of a project. Missing directories on the way are created. -/
namespace ProjectIndex.FileTree

def step (t : FileTree) (names : List Name) (segment : Name) : List Name :=
  if segment = [] || segment = ['.'] then names
  else if segment = ['.', '.'] then names.dropLast
  else
    match t.resolveFrom 41 names [segment] with
    | .ok there => there
    | .error _ => names ++ [segment]

def placeOf (t : FileTree) (p : Path) : List Name := (Text.splitOn '/' p.text).foldl t.step []

/-- The place a path names, a link at its end not followed. -/
def placeOfEntry (t : FileTree) (p : Path) : List Name :=
  match p.parent?, p.fileName? with
  | some above, some n => t.placeOf above ++ [n]
  | _, _ => t.placeOf p

def write (t : FileTree) (p : Path) (bytes : List UInt8) : FileTree :=
  { t with root := t.root.put (t.placeOf p) (.file bytes) }

def makeLink (t : FileTree) (p target : Path) : FileTree :=
  { t with root := t.root.put (t.placeOfEntry p) (.link target) }

def makeDir (t : FileTree) (p : Path) : FileTree :=
  if t.isDir p then t else { t with root := t.root.put (t.placeOf p) (.dir []) }

def delete (t : FileTree) (p : Path) : FileTree :=
  { t with root := t.root.remove (t.placeOfEntry p) }

def rename (t : FileTree) (p q : Path) : FileTree :=
  match t.root.get? (t.placeOfEntry p) with
  | some e =>
    let without := t.delete p
    { without with root := without.root.put (without.placeOfEntry q) e }
  | none => t

end ProjectIndex.FileTree

namespace ProjectIndex

inductive Edit where
  | write (path : Path) (bytes : List UInt8)
  | delete (path : Path)
  | makeDir (path : Path)
  | rename (path target : Path)
  | link (path target : Path)
deriving DecidableEq, Inhabited, Repr

def Edit.apply (t : FileTree) : Edit → FileTree
  | .write p bytes => t.write p bytes
  | .delete p => t.delete p
  | .makeDir p => t.makeDir p
  | .rename p q => t.rename p q
  | .link p target => t.makeLink p target

end ProjectIndex
