import ProjectIndex.Engine.Cache
import ProjectIndex.Settings.Basic

/-!
The engine of a project: a scanner with all indexers on the project's cache. A workspace holds the
files and the caches; what an engine writes goes to its cache, where the next engine, or another one
that is open at the same time, finds it.
-/
namespace ProjectIndex

inductive EngineEvent where
  | started (full : Bool)
  | completed (full : Bool) (report : ScanReport)
  | failed (full : Bool) (message : String)
deriving DecidableEq, Inhabited, Repr

inductive EngineError where
  | index (cause : Failure)
  | io (cause : FileError)
  | settings
  | invalidPath (path : Path)
deriving DecidableEq, Inhabited, Repr

def EngineError.message : EngineError → String
  | .index cause => cause.message
  | .io cause => "IO error: " ++ cause.message
  | .settings => "Invalid configuration"
  | .invalidPath path => "Invalid project path: " ++ path.toString

def EngineError.ofSettings : SettingsError → EngineError
  | .unreadable cause => .io cause
  | .malformed => .settings

structure Engine where
  cacheDir : Path
  generation : Nat
  /-- Whether the cache was emptied, so that everything is to be indexed. -/
  needsRebuild : Bool
  scanner : Scanner Facts

namespace Engine

def root (e : Engine) : Path := e.scanner.root

def run (e : Engine) (full : Bool)
    (work : Scanner Facts → Scanner Facts × Except Failure ScanReport) :
    Engine × Except Failure ScanReport × List EngineEvent :=
  let r := work e.scanner
  let last := match r.2 with
    | .ok report => EngineEvent.completed full report
    | .error cause => .failed full cause.message
  ({ e with scanner := r.1 }, r.2, [.started full, last])

def indexAll (e : Engine) (m : Moment) (force : Bool) :
    Engine × Except Failure ScanReport × List EngineEvent :=
  e.run true (·.indexAll m force)

def indexFiles (e : Engine) (m : Moment) (paths : List Path) :
    Engine × Except Failure ScanReport × List EngineEvent :=
  e.run false (·.indexFiles m paths)

def removeFiles (e : Engine) (m : Moment) (paths : List Path) :
    Engine × Except Failure ScanReport × List EngineEvent :=
  e.run false (·.removeFiles m paths)

def shutdown (e : Engine) (m : Moment) : Engine × Except Failure Unit :=
  let r := e.scanner.close m
  ({ e with scanner := r.1 }, r.2)

def callIndexer (e : Engine) (id : String) (call : Indexer Facts → Facts → Outcome Facts) :
    Engine × Except Failure Unit :=
  match e.scanner.indexers.find? fun i => i.id == id with
  | none => (e, .ok ())
  | some i =>
    let r := call i e.scanner.facts
    ({ e with scanner := { e.scanner with facts := r.1 } },
      match r.2 with
      | some cause => .error cause
      | none => .ok ())

end Engine

structure Workspace where
  files : FileTree
  caches : List (Path × Cache)
  workingDir : Path
  configDir : Path
  cacheHome : Path
  now : Timestamp
deriving Inhabited

namespace Workspace

def moment (w : Workspace) : Moment := ⟨w.files, w.now⟩

def cache (w : Workspace) (dir : Path) : Cache := (w.caches.lookup dir).getD .empty

def putCache (w : Workspace) (dir : Path) (c : Cache) : Workspace :=
  { w with caches := (dir, c) :: w.caches.filter fun d => d.1 != dir }

def absolute (w : Workspace) (p : Path) : Path :=
  if p.text.isEmpty then p else w.workingDir.join p

def cacheDir (w : Workspace) (s : Settings) (root : Path) : Path :=
  (w.absolute (s.cacheBase w.cacheHome)).join (Path.ofString (Cache.slug root))

def settings (w : Workspace) (root : Path) (env : List (String × String)) : Settings :=
  Settings.load w.files w.configDir (w.absolute root) env

/-- Opens the engine of a project: checks the cache's version, then opens its databases. -/
def openEngine (w : Workspace) (root : Path) (s : Settings) :
    Workspace × Except EngineError Engine :=
  match w.files.canonical? (w.absolute root) with
  | .error _ => (w, .error (.invalidPath root))
  | .ok real =>
    let dir := w.cacheDir s real
    let (c, needsRebuild) := (w.cache dir).ensureVersion
    let (c, opened) := c.openDatabases (c.facts.databases ++ [Cache.hashDatabase])
    let w := w.putCache dir c
    match opened with
    | .error cause => (w, .error (.index cause))
    | .ok () =>
      match Scanner.open? w.files real s.scanOptions Facts.indexers c.hashes c.facts with
      | .error cause => (w, .error (.index cause))
      | .ok scanner => (w, .ok ⟨dir, c.generation, needsRebuild, scanner⟩)

def attach (w : Workspace) (e : Engine) : Engine :=
  let c := w.cache e.cacheDir
  if c.generation != e.generation then e
  else
    { e with
      scanner := { e.scanner with
        facts := e.scanner.facts.withRows c.facts
        hashes := { e.scanner.hashes with files := c.hashes.files } } }

def persist (w : Workspace) (e : Engine) : Workspace :=
  let c := w.cache e.cacheDir
  if c.generation != e.generation then w
  else
    w.putCache e.cacheDir
      { c with
        facts := c.facts.withRows e.scanner.facts
        hashes := { c.hashes with files := e.scanner.hashes.files } }

end Workspace
end ProjectIndex
