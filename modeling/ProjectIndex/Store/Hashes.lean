import ProjectIndex.Failure
import ProjectIndex.Store.Timestamp

/-!
The hash table: which files were indexed, and with what content. A file with a failed part is kept
under a mark that is no digest, so that the next scan takes it up again. What the table gives back of
a path is the text it was stored under.
-/
namespace ProjectIndex

/-- Stands in place of a digest; no digest equals it. -/
def retryHash : String := "retry"

structure TrackedFile where
  path : Path
  contentHash : String
  lastIndexedAt : Timestamp
deriving DecidableEq, Inhabited, Repr

def TrackedFile.needsRetry (f : TrackedFile) : Bool := f.contentHash == retryHash

structure HashTable where
  files : List TrackedFile
  closed : Bool
deriving DecidableEq, Inhabited, Repr

namespace HashTable

def new : HashTable := ⟨[], false⟩

def whenOpen {β : Type} (h : HashTable) (answer : β) : Except Failure β :=
  if h.closed then .error (.closed "file_scanner") else .ok answer

/-- The record of a path, by its exact spelling. -/
def find? (h : HashTable) (p : Path) : Option TrackedFile := h.files.find? fun f => f.path == p

def get (h : HashTable) (p : Path) : Except Failure (Option TrackedFile) := h.whenOpen (h.find? p)

def hashOf (h : HashTable) (p : Path) : Except Failure (Option String) :=
  h.whenOpen ((h.find? p).map TrackedFile.contentHash)

def put (files : List TrackedFile) (f : TrackedFile) : List TrackedFile :=
  if files.any fun g => g.path == f.path then
    files.map fun g => if g.path == f.path then f else g
  else files ++ [f]

def save (h : HashTable) (fs : List TrackedFile) : Except Failure HashTable :=
  if fs.isEmpty then .ok h else h.whenOpen { h with files := fs.foldl put h.files }

def remove (h : HashTable) (ps : List Path) : Except Failure HashTable :=
  if ps.isEmpty then .ok h
  else h.whenOpen { h with files := h.files.filter fun f => !ps.contains f.path }

def textBefore (p q : Path) : Bool := (List.compareLex Ord.compare p.text q.text).isLE

def paths (h : HashTable) : Except Failure (List Path) :=
  h.whenOpen ((h.files.map TrackedFile.path).mergeSort textBefore)

def size (h : HashTable) : Except Failure Nat := h.whenOpen h.files.length

def clear (h : HashTable) : Except Failure HashTable := h.whenOpen { h with files := [] }

def close (h : HashTable) : HashTable := { h with closed := true }

def reopen (h : HashTable) : HashTable := { h with closed := false }

end HashTable
end ProjectIndex
