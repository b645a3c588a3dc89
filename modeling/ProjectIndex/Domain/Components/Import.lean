import ProjectIndex.Domain.Literal
import ProjectIndex.Files.Basic

/-! From the specifier of an import to the file it loads. -/
namespace ProjectIndex.Components

def relativeTo (file : Path) (specifier : List Char) : Path :=
  ((file.parent?.getD ⟨[]⟩).join ⟨specifier⟩).folded

def isScriptExtension (ext : Option (List Char)) : Bool :=
  ext == some "js".toList || ext == some "ts".toList

/-- The script a path stands for: itself with a script's extension, else the first that exists of the
usual endings, else its `index.js`. -/
def scriptFile (files : FileTree) (p : Path) : Path :=
  if isScriptExtension p.extension? then p
  else
    (([".js", ".ts", "/index.js", "/index.ts"].map fun ending =>
      (⟨p.text ++ ending.toList⟩ : Path)).find? files.isFile).getD (p.join (Path.ofString "index.js"))

/-- The file a lazy import in `file` loads. `src/` is read from the administration's directory, dots
from the directory of the file; any other specifier stays as it is. -/
def resolveImport (files : FileTree) (file : Path) (specifier : List Char) : Path :=
  if "src/".toList.isPrefixOf specifier then
    match Text.splitAtFirst (administrationDir ++ ['/']) file.text with
    | some (before, _) =>
      scriptFile files (Path.join ⟨before ++ administrationDir ++ ['/']⟩ ⟨specifier⟩)
    | none => ⟨specifier⟩
  else if "./".toList.isPrefixOf specifier || "../".toList.isPrefixOf specifier then
    scriptFile files (relativeTo file specifier)
  else ⟨specifier⟩

/-- The key of a definition file: its path without a script's extension and without a final
`/index`. -/
def definitionKey (path : List Char) : List Char :=
  let slashed := (⟨path⟩ : Path).slashed
  let stem := ((Text.dropEnd? ".js".toList slashed).or (Text.dropEnd? ".ts".toList slashed)).getD slashed
  (Text.dropEnd? "/index".toList stem).getD stem

end ProjectIndex.Components
