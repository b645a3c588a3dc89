import ProjectIndex.Failure
import ProjectIndex.Path.Order
import ProjectIndex.Text.Bytes
import ProjectIndex.Text.Utf8

/-!
The files a project is read from: a tree of directories, files and symbolic links. A path is
resolved segment by segment; a link is followed where it is met, at most forty times. A name has at
most 255 bytes and a path at most 4095, and no character of it is zero.
-/
namespace ProjectIndex

abbrev Name := List Char

inductive Entry where
  | file (bytes : List UInt8)
  | link (target : Path)
  | dir (entries : List (Name × Entry))
deriving Inhabited, Repr

namespace Entry

def isFile : Entry → Bool
  | .file _ => true
  | _ => false

def isDir : Entry → Bool
  | .dir _ => true
  | _ => false

def child? : Entry → Name → Option Entry
  | .dir entries, n => entries.lookup n
  | _, _ => none

def get? : Entry → List Name → Option Entry
  | e, [] => some e
  | e, n :: ns => (e.child? n).bind fun c => c.get? ns

def putChild (n : Name) (e : Entry) : List (Name × Entry) → List (Name × Entry)
  | [] => [(n, e)]
  | (m, f) :: rest => if m = n then (m, e) :: rest else (m, f) :: putChild n e rest

def put : Entry → List Name → Entry → Entry
  | _, [], e => e
  | .dir entries, n :: ns, e =>
    .dir (putChild n (((entries.lookup n).getD (.dir [])).put ns e) entries)
  | _, n :: ns, e => .dir [(n, (Entry.dir []).put ns e)]

def remove : Entry → List Name → Entry
  | .dir entries, [n] => .dir (entries.filter fun c => c.1 != n)
  | .dir entries, n :: ns =>
    match entries.lookup n with
    | some c => .dir (putChild n (c.remove ns) entries)
    | none => .dir entries
  | e, _ => e

end Entry

theorem FileTree.replaced_nil : ∀ n ∈ ([] : List Name), '\uFFFD' ∈ n := List.forall_mem_nil _

structure FileTree where
  root : Entry
  /-- The names of directories that are no well-formed text, as decoding shows them. A file whose own
  name is none has no known type and is left out. -/
  illFormed : List Name := []
  replaced : ∀ n ∈ illFormed, '\uFFFD' ∈ n := by exact FileTree.replaced_nil
deriving Repr

namespace FileTree

instance : Inhabited FileTree := ⟨{ root := default }⟩

def empty : FileTree := { root := .dir [] }

/-- Whether a path is text, so that it comes back from its key as it was. -/
def isText (t : FileTree) (p : Path) : Bool :=
  p.components.all fun
    | .normal name => !t.illFormed.contains name
    | _ => true

theorem isText_congr {t : FileTree} {p q : Path} (h : Path.same p q = true) :
    t.isText p = t.isText q := by
  unfold isText
  rw [eq_of_beq h]

theorem isText_of_nil {t : FileTree} (h : t.illFormed = []) (p : Path) : t.isText p = true := by
  refine List.all_eq_true.2 fun c _ => ?_
  cases c <;> simp [h]

/-- How far a path leads without following a link. -/
inductive Reach where
  | place (names : List Name)
  | link (names : List Name) (target : Path) (rest : List Name)
  | error (cause : FileError)

/-- Walks the segments of a path from a place. An empty segment and `.` stay, `..` goes up; all three
need a directory. -/
def reach (t : FileTree) : List Name → List Name → Reach
  | names, [] => .place names
  | names, segment :: rest =>
    match t.root.get? names with
    | some (.dir entries) =>
      if segment = [] || segment = ['.'] then reach t names rest
      else if segment = ['.', '.'] then reach t names.dropLast rest
      else if 255 < Text.byteLength segment then .error .nameTooLong
      else
        match entries.lookup segment with
        | none => .error .notFound
        | some (.link target) => .link names target rest
        | some _ => reach t (names ++ [segment]) rest
    | some _ => .error .notDirectory
    | none => .error .notFound

def resolveFrom (t : FileTree) : Nat → List Name → List Name → Except FileError (List Name)
  | 0, _, _ => .error .tooManyLinks
  | links + 1, names, segments =>
    match t.reach names segments with
    | .place names => .ok names
    | .error cause => .error cause
    | .link names target rest =>
      let start := if target.isAbsolute then [] else names
      resolveFrom t links start (Text.splitOn '/' target.text ++ rest)

/-- The real place of an absolute path. A relative path names nothing. -/
def resolve (t : FileTree) (p : Path) : Except FileError (List Name) :=
  if p.text.contains '\x00' then .error .zeroInName
  else if 4095 < Text.byteLength p.text then .error .nameTooLong
  else if p.isAbsolute then t.resolveFrom 41 [] (Text.splitOn '/' p.text) else .error .notFound

def find (t : FileTree) (p : Path) : Except FileError Entry :=
  match t.resolve p with
  | .error cause => .error cause
  | .ok names =>
    match t.root.get? names with
    | some e => .ok e
    | none => .error .notFound

def pathOf (names : List Name) : Path :=
  if names.isEmpty then ⟨['/']⟩ else ⟨names.flatMap fun n => '/' :: n⟩

def canonical? (t : FileTree) (p : Path) : Except FileError Path := (t.resolve p).map pathOf

def isFile (t : FileTree) (p : Path) : Bool :=
  match t.find p with
  | .ok e => e.isFile
  | .error _ => false

def isDir (t : FileTree) (p : Path) : Bool :=
  match t.find p with
  | .ok e => e.isDir
  | .error _ => false

def doesExist (t : FileTree) (p : Path) : Bool := (t.find p).toBool

def read (t : FileTree) (p : Path) : Except FileError (List UInt8) :=
  match t.find p with
  | .ok (.file bytes) => .ok bytes
  | .ok _ => .error .isDirectory
  | .error cause => .error cause

def readText (t : FileTree) (p : Path) : Except FileError (List Char) :=
  match t.read p with
  | .ok bytes =>
    match Text.decode? bytes with
    | some text => .ok text
    | none => .error .notText
  | .error cause => .error cause

end FileTree
end ProjectIndex
