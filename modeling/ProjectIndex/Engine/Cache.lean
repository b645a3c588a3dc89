import ProjectIndex.Engine.Facts
import ProjectIndex.Files.Edit
import ProjectIndex.Scan.Scanner
import ProjectIndex.Text.Blank

/-!
The cache of a project: its databases and the files beside them. A cache that was written by another
version is emptied before it is used.
-/
namespace ProjectIndex

structure Cache where
  files : FileTree
  databases : List String
  facts : Facts
  hashes : HashTable
  /-- How often the cache was emptied. Databases opened before lead a life of their own. -/
  generation : Nat
deriving Inhabited

namespace Cache

def empty : Cache := ⟨.empty, [], .empty, .new, 0⟩

def indexVersion : String := "2"

def versionFile : Path := Path.ofString "/index_version"

def hashDatabase : String := "file_scanner.db"

def pathOf (name : String) : Path := Path.ofString ("/" ++ name)

def slug (root : Path) : String :=
  String.ofList (root.fileName?.getD "project".toList) ++ "-" ++
    String.ofList ((Digest.sha256Text root.text).toList.take 12)

def isCurrent (c : Cache) : Bool :=
  match c.files.readText versionFile with
  | .ok text => Text.trim text == indexVersion.toList
  | .error _ => false

/-- Empties a cache of another version; says whether it did. -/
def ensureVersion (c : Cache) : Cache × Bool :=
  if c.isCurrent then (c, false)
  else
    ({ empty with
      files := FileTree.empty.write versionFile (Text.encode indexVersion.toList)
      generation := c.generation + 1 }, true)

/-- Whether a file stands where a database should be and is none. An empty file becomes one. -/
def isDamaged (c : Cache) (database : String) : Bool :=
  match c.files.find (pathOf database) with
  | .ok (.file bytes) => !bytes.isEmpty
  | .ok _ => true
  | .error _ => false

/-- Opens databases in turn, up to the first that is damaged. -/
def openDatabases (c : Cache) : List String → Cache × Except Failure Unit
  | [] => (c, .ok ())
  | d :: ds =>
    if c.isDamaged d then (c, .error .storage)
    else openDatabases { c with databases := c.databases.erase d ++ [d] } ds

def dropDatabase (c : Cache) (name : String) : Cache :=
  { c with
    databases := c.databases.erase name
    facts := c.facts.withoutDatabase name
    hashes := if name == hashDatabase then .new else c.hashes }

def write (c : Cache) (name : String) (bytes : List UInt8) : Cache :=
  let c := c.dropDatabase name
  { c with files := c.files.write (pathOf name) bytes }

def remove (c : Cache) (name : String) : Cache :=
  let c := c.dropDatabase name
  { c with files := c.files.delete (pathOf name) }

def doesExist (c : Cache) (name : String) : Bool :=
  c.files.doesExist (pathOf name) || c.databases.contains name

def text (c : Cache) (name : String) : List Char :=
  (c.files.readText (pathOf name)).toOption.getD []

end Cache
end ProjectIndex
