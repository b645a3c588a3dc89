import ProjectIndex.Failure
import ProjectIndex.Grammar.FileType
import ProjectIndex.Grammar.Json
import ProjectIndex.Grammar.Script.Tree
import ProjectIndex.Grammar.Twig.Tree
import ProjectIndex.Grammar.Xml

/-! The grammar of each file type. The script grammar reads both script types. -/
namespace ProjectIndex

def FileType.parse : FileType → Source → SyntaxTree
  | .twig, src => Twig.parse src
  | .javaScript, src => Script.parse src
  | .typeScript, src => Script.parse src
  | .json, src => Json.parse src
  | .xml, src => Xml.parse src

def parsePath (p : Path) (src : Source) : Except Failure SyntaxTree :=
  match FileType.ofPath? p with
  | some t => .ok (t.parse src)
  | none => .error (.unsupportedFileType p)

end ProjectIndex
