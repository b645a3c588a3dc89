import ProjectIndex.Files.Basic
import ProjectIndex.Files.SkipNames
import ProjectIndex.Grammar.FileType

/-!
The files of a project with a known grammar, in the order of their paths. Skipped directories below
the root are not entered. Links are passed over, or else followed; a link back to a directory that
is being walked is passed over in any case.
-/
namespace ProjectIndex

structure FoundFile where
  path : Path
  size : Nat
deriving DecidableEq, Inhabited, Repr

namespace Walk

def found (path : Path) (bytes : List UInt8) : List FoundFile :=
  if (FileType.ofPath? path).isSome then [⟨path, bytes.length⟩] else []

def entered (skip : SkipNames) (n : Name) (e : Entry) : Bool :=
  !(e.isDir && skip.contains (String.ofList n))

mutual

def below (skip : SkipNames) (path : Path) : Entry → List FoundFile
  | .file bytes => found path bytes
  | .link _ => []
  | .dir entries => among skip path entries

def among (skip : SkipNames) (path : Path) : List (Name × Entry) → List FoundFile
  | [] => []
  | (n, e) :: rest =>
    (if entered skip n e then below skip (path.join ⟨n⟩) e else []) ++ among skip path rest

end

/-- The files at or below a place, links followed. `trail` holds the places being walked. -/
def following (t : FileTree) (skip : SkipNames) :
    Nat → List (List Name) → Path → List Name → List FoundFile
  | 0, _, _, _ => []
  | depth + 1, trail, path, names =>
    match t.root.get? names with
    | some (.file bytes) => found path bytes
    | some (.dir entries) =>
      entries.flatMap fun (n, e) =>
        let here := path.join ⟨n⟩
        match e with
        | .link _ =>
          match t.resolveFrom 41 names [n] with
          | .error _ => []
          | .ok target =>
            match t.root.get? target with
            | some (.dir entries) =>
              if (names :: trail).contains target || !entered skip n (.dir entries) then []
              else following t skip depth (names :: trail) here target
            | some (.file bytes) => found here bytes
            | _ => []
        | _ =>
          if entered skip n e then following t skip depth (names :: trail) here (names ++ [n]) else []
    | _ => []

mutual

/-- The number of entries of a tree, which bounds the depth of a walk that repeats no place. -/
def entryCount : Entry → Nat
  | .file _ => 1
  | .link _ => 1
  | .dir entries => 1 + entriesCount entries

def entriesCount : List (Name × Entry) → Nat
  | [] => 0
  | (_, e) :: rest => entryCount e + entriesCount rest

end

def sorted (files : List FoundFile) : List FoundFile :=
  files.mergeSort fun a b => Path.before a.path b.path

end Walk

def FileTree.walk (t : FileTree) (root : Path) (skip : SkipNames) (followLinks : Bool) :
    List FoundFile :=
  match t.resolve root with
  | .error _ => []
  | .ok names =>
    if followLinks then
      Walk.sorted (Walk.following t skip (Walk.entryCount t.root + 1) [] root names)
    else
      match t.root.get? names with
      | some e => Walk.sorted (Walk.below skip root e)
      | none => []

end ProjectIndex
