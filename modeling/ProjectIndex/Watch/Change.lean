import ProjectIndex.Files.Edit
import ProjectIndex.Files.SkipNames
import ProjectIndex.Grammar.FileType

/-!
From events of the file system to changes of files that a scan would take. A rename names the old and
the new path; which of them still exists tells them apart.
-/
namespace ProjectIndex

inductive EventKind where
  | create
  | modify
  | rename
  | remove
  | other
deriving DecidableEq, Inhabited, Repr

structure FileEvent where
  kind : EventKind
  paths : List Path
deriving DecidableEq, Inhabited, Repr

inductive ChangeKind where
  | created
  | modified
  | deleted
deriving DecidableEq, Inhabited, Repr

structure FileChange where
  path : Path
  kind : ChangeKind
deriving DecidableEq, Inhabited, Repr

namespace FileEvent

def changeKind? (t : FileTree) (kind : EventKind) (p : Path) : Option ChangeKind :=
  match kind with
  | .create => some .created
  | .modify => some .modified
  | .remove => some .deleted
  | .rename => some (if t.doesExist p then .modified else .deleted)
  | .other => none

/-- The changes an event stands for, seen against the files as they are. -/
def changes (e : FileEvent) (t : FileTree) : List FileChange :=
  (e.paths.filter fun p => !t.isDir p && (FileType.ofPath? p).isSome).filterMap fun p =>
    (changeKind? t e.kind p).map fun kind => ⟨p, kind⟩

end FileEvent

mutual

def leafPaths (p : Path) : Entry → List Path
  | .file _ => [p]
  | .link _ => [p]
  | .dir entries => leafPathsAmong p entries

def leafPathsAmong (p : Path) : List (Name × Entry) → List Path
  | [] => []
  | (n, e) :: rest => leafPaths (p.join ⟨n⟩) e ++ leafPathsAmong p rest

end

def Edit.events (before : FileTree) : Edit → List FileEvent
  | .write p _ => [⟨if before.doesExist p then .modify else .create, [p]⟩]
  | .delete p =>
    match before.root.get? (before.placeOfEntry p) with
    | some e => (leafPaths p e).map fun q => ⟨.remove, [q]⟩
    | none => []
  | .makeDir p => [⟨.create, [p]⟩]
  | .rename p q => [⟨.rename, [p, q]⟩]
  | .link p _ => [⟨.create, [p]⟩]

structure Watcher where
  root : Path
  skip : SkipNames
deriving DecidableEq, Inhabited, Repr

namespace Watcher

def open? (files : FileTree) (root : Path) (skip : SkipNames) : Except Failure Watcher :=
  match files.canonical? root with
  | .ok root => .ok ⟨root, skip⟩
  | .error _ => .error (.notFound root)

def changes (w : Watcher) (t : FileTree) (e : FileEvent) : List FileChange :=
  (e.changes t).filter fun c => !w.skip.excludes w.root c.path

def follow (w : Watcher) : FileTree → List Edit → FileTree × List FileChange
  | t, [] => (t, [])
  | t, e :: es =>
    let after := e.apply t
    let rest := follow w after es
    (rest.1, (e.events t).flatMap (w.changes after) ++ rest.2)

end Watcher
end ProjectIndex
