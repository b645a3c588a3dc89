import ProjectIndex.Engine.Basic
import ProjectIndex.Watch.Pipeline

/-!
The daemon: an engine that brings its index up to date when it starts and then follows the changes of
the project until it is asked to stop.
-/
namespace ProjectIndex

inductive DaemonError where
  | opening (root : Path) (cause : EngineError)
  | closing (cause : Failure)
deriving DecidableEq, Inhabited, Repr

def DaemonError.causes : DaemonError → List String
  | .opening root cause => ["Failed to open index for " ++ root.toString, cause.message]
  | .closing cause => ["Failed to close index", cause.message]

def DaemonError.message (e : DaemonError) : String := ": ".intercalate e.causes

namespace Workspace

/-- Runs a daemon while the given edits happen, and stops it once they are indexed. -/
def runDaemon (w : Workspace) (root : Path) (s : Settings) (edits : List Edit) :
    Workspace × Except DaemonError Unit :=
  match w.openEngine root s with
  | (w, .error cause) => (w, .error (.opening root cause))
  | (w, .ok engine) =>
    let first := (Pipeline.start engine.scanner [.indexAll engine.needsRebuild]).settle w.moment
    let (files, changes) :=
      if s.watch then Watcher.follow ⟨engine.root, s.skipNames⟩ w.files edits
      else (edits.foldl Edit.apply w.files, [])
    let w := { w with files }
    let last := (first.report changes).settle w.moment
    let (engine, closed) := { engine with scanner := last.scanner }.shutdown w.moment
    (w.persist engine,
      match closed with
      | .ok () => .ok ()
      | .error cause => .error (.closing cause))

end Workspace
end ProjectIndex
