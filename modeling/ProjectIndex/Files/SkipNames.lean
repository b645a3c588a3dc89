import ProjectIndex.Path.Order

/-! Names of directories that are never scanned. -/
namespace ProjectIndex

def defaultSkipNames : List String :=
  ["node_modules", "var", "vendor-bin", "bin", "cache", ".git", ".github", ".gitlab", ".run",
    ".idea", ".vscode", "tests", "public"]

structure SkipNames where
  extra : List String
deriving DecidableEq, Inhabited, Repr

namespace SkipNames

def contains (s : SkipNames) (name : String) : Bool :=
  defaultSkipNames.contains name || s.extra.contains name

/-- Whether some directory of `path` below `root` is skipped; its last component does not count. -/
def excludes (s : SkipNames) (root path : Path) : Bool :=
  (Path.relativeComponents root path).dropLast.any fun
    | .normal name => s.contains (String.ofList name)
    | _ => false

end SkipNames
end ProjectIndex
