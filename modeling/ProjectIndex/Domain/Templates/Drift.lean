import ProjectIndex.Domain.Templates.Record
import ProjectIndex.Failure

/-!
Drift: an override whose marker no longer matches the block it was copied from. The block meant is
the nearest definition on the chain of extended templates. Each file is visited at most once; of
several files with one relative path the first not yet visited is followed.
-/
namespace ProjectIndex

inductive DiagnosticKind where
  | drift (expected actual origin : String)
  | missingMarker (origin : String)
deriving DecidableEq, Inhabited, Repr

structure Diagnostic where
  block : String
  line : Nat
  kind : DiagnosticKind
deriving DecidableEq, Inhabited, Repr

/-- The first twelve bytes of a hash, or all of it if they do not end with a character. -/
def shortHash (hash : String) : String :=
  ((Text.takeBytes? 12 hash.toList).map String.ofList).getD hash

def Diagnostic.message (d : Diagnostic) : String :=
  match d.kind with
  | .drift expected actual origin =>
    "upstream block '" ++ d.block ++ "' changed (expected: " ++ shortHash expected ++ ", got: " ++
      shortHash actual ++ ", source: " ++ origin ++ ")"
  | .missingMarker _ => "block '" ++ d.block ++ "' has no version marker"

namespace Templates

structure InheritedBlock where
  hash : String
  relativePath : String
deriving DecidableEq, Inhabited, Repr

abbrev Lookup := String → Except Failure (List TemplateFile)

def inheritedFrom (lookup : Lookup) (block : String) :
    Nat → List String → Option String → Except Failure (Option InheritedBlock)
  | 0, _, _ => .ok none
  | _ + 1, _, none => .ok none
  | n + 1, visited, some reference =>
    match lookup (String.ofList (normalizeReference reference.toList)) with
    | .error e => .error e
    | .ok candidates =>
      match candidates.find? fun c => !visited.contains c.path with
      | none => .ok none
      | some above =>
        match above.blocks.find? fun b => b.name == block with
        | some defined => .ok (some ⟨defined.hash, above.relativePath⟩)
        | none => inheritedFrom lookup block n (above.path :: visited) above.parent

/-- The nearest definition of a block in the templates above one. A chain visits no file twice, so
it is no longer than the number of templates. -/
def findInherited (lookup : Lookup) (templates : Nat) (f : TemplateFile) (block : String) :
    Except Failure (Option InheritedBlock) :=
  inheritedFrom lookup block (templates + 1) [f.path] f.parent

def diagnose (b : TemplateBlock) (o : InheritedBlock) : Option Diagnostic :=
  match b.marker with
  | some m =>
    if m.hash != o.hash then some ⟨b.name, m.line, .drift o.hash m.hash o.relativePath⟩ else none
  | none => some ⟨b.name, b.line, .missingMarker o.relativePath⟩

def checkBlocks (lookup : Lookup) (templates : Nat) (f : TemplateFile) :
    List TemplateBlock → Except Failure (List Diagnostic)
  | [] => .ok []
  | b :: bs =>
    match findInherited lookup templates f b.name with
    | .error e => .error e
    | .ok o =>
      match checkBlocks lookup templates f bs with
      | .error e => .error e
      | .ok rest => .ok ((o.bind (diagnose b)).toList ++ rest)

def checkFile (lookup : Lookup) (templates : Nat) (f : TemplateFile) :
    Except Failure (List Diagnostic) :=
  if f.parent.isNone then .ok [] else checkBlocks lookup templates f f.blocks

end Templates
end ProjectIndex
