import ProjectIndex.Failure
import ProjectIndex.Text.Hidden

/-!
Facts by file and key. A store holds at most one record for a file and a key and answers the records
of a key across files and the keys of a file, each in the order of insertion. Saving a file replaces
everything it owned.
-/
namespace ProjectIndex

abbrev FileFacts (α : Type) := List (String × α)

structure Row (α : Type) where
  file : Path
  key : String
  value : α
deriving DecidableEq, Repr

namespace Row

variable {α : Type}

def isAt (r : Row α) (file : Path) (key : String) : Bool := r.file == file && r.key == key

end Row

namespace Rows

variable {α : Type}

def ofFile (file : Path) (rows : List (Row α)) : List (Row α) := rows.filter fun r => r.file == file

def distinctKeys (facts : FileFacts α) : List String := (facts.map Prod.fst).eraseDups

def upsert (file : Path) (rows : List (Row α)) (fact : String × α) : List (Row α) :=
  if rows.any fun r => r.isAt file fact.1 then
    rows.map fun r => if r.isAt file fact.1 then { r with value := fact.2 } else r
  else rows ++ [⟨file, fact.1, fact.2⟩]

/-- Whether the keys a file keeps are, in their order, the first of its new keys. -/
def keepsOrder (file : Path) (rows : List (Row α)) (keys : List String) : Bool :=
  (((ofFile file rows).map Row.key).filter keys.contains).isPrefixOf keys

/-- The rows that survive a save: in place when the order is kept, otherwise none of the file. -/
def surviving (file : Path) (rows : List (Row α)) (keys : List String) : List (Row α) :=
  if keepsOrder file rows keys then rows.filter fun r => r.file != file || keys.contains r.key
  else rows.filter fun r => r.file != file

/-- Replaces everything a file owns. The last record of a repeated key wins, at the place of its
first occurrence. -/
def saveFile (rows : List (Row α)) (file : Path) (facts : FileFacts α) : List (Row α) :=
  facts.foldl (upsert file) (surviving file rows (distinctKeys facts))

def deleteFiles (rows : List (Row α)) (files : List Path) : List (Row α) :=
  rows.filter fun r => !files.contains r.file

end Rows

structure FactStore (α : Type) where
  name : String
  rows : List (Row α)
  closed : Bool
deriving DecidableEq, Inhabited, Repr

namespace FactStore

variable {α β : Type}

def nameOfFile (p : Path) : String := String.ofList (p.stem?.getD "store".toList)

def new (name : String) : FactStore α := ⟨name, [], false⟩

def whenOpen (s : FactStore α) (answer : β) : Except Failure β :=
  if s.closed then .error (.closed s.name) else .ok answer

def save (s : FactStore α) (batch : List (Path × FileFacts α)) : Except Failure (FactStore α) :=
  s.whenOpen { s with rows := batch.foldl (fun rows f => Rows.saveFile rows f.1 f.2) s.rows }

def deleteFiles (s : FactStore α) (files : List Path) : Except Failure (FactStore α) :=
  if files.isEmpty then .ok s else s.whenOpen { s with rows := Rows.deleteFiles s.rows files }

def clear (s : FactStore α) : Except Failure (FactStore α) := s.whenOpen { s with rows := [] }

def close (s : FactStore α) : FactStore α := { s with closed := true }

def reopen (s : FactStore α) : FactStore α := { s with closed := false }

def values (s : FactStore α) (key : String) : Except Failure (List α) :=
  s.whenOpen ((s.rows.filter fun r => r.key == key).map Row.value)

def allValues (s : FactStore α) : Except Failure (List α) := s.whenOpen (s.rows.map Row.value)

def allKeys (s : FactStore α) : Except Failure (List String) :=
  s.whenOpen (s.rows.map Row.key).eraseDups

def keysOfFile (s : FactStore α) (file : Path) : Except Failure (List String) :=
  s.whenOpen ((Rows.ofFile file s.rows).map Row.key)

def size (s : FactStore α) : Except Failure Nat := s.whenOpen s.rows.length

/-- The records of a key, read as another type; one that cannot be read fails the whole answer. -/
def valuesAs (s : FactStore α) (decode : α → Option β) (key : String) : Except Failure (List β) :=
  match s.values key with
  | .error e => .error e
  | .ok records =>
    match records.mapM decode with
    | some decoded => .ok decoded
    | none => .error .serialization

def describe (s : FactStore α) (file : Path) : String :=
  "FactStore \x7b name: " ++ quoteText s.name.toList ++ ", path: " ++ quoteText file.text ++ " \x7d"
where
  quoteText (t : List Char) : String := String.ofList ('"' :: t.flatMap escape ++ ['"'])
  escape (c : Char) : List Char :=
    if c == '"' || c == '\\' then ['\\', c]
    else if c == '\n' then ['\\', 'n']
    else if c == '\r' then ['\\', 'r']
    else if c == '\t' then ['\\', 't']
    else if c == '\x00' then ['\\', '0']
    else if Text.isHidden c then "\\u\x7b".toList ++ Nat.toDigits 16 c.toNat ++ ['\x7d']
    else [c]

end FactStore
end ProjectIndex
