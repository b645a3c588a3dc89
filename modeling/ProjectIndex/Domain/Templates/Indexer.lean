import ProjectIndex.Domain.Stores
import ProjectIndex.Domain.Templates.Drift
import ProjectIndex.Grammar.Twig.Tree

/-! Templates and their blocks as facts, and the drift check against them. -/
namespace ProjectIndex

abbrev TemplateStores := StorePair TemplateFile BlockHash

namespace Templates

def excludedParts : List (List Char) :=
  [administrationDir, "Migration/Fixtures".toList, ".phpdoc/template".toList]

def accepts (p : Path) : Bool :=
  p.extension? == some "twig".toList && !excludedParts.any fun part => Text.contains p.slashed part

def extract (p : Path) (t : SyntaxTree) (src : Source) :
    FileFacts TemplateFile × FileFacts BlockHash :=
  let f := record t src p
  ([(f.relativePath, f)], blockFacts f)

def indexer : Indexer TemplateStores :=
  StorePair.indexer "twig.templates" accepts fun _ p t src s => s.save p (extract p t src)

def emptyStores : TemplateStores := ⟨.new "templates", .new "blocks"⟩

def blockHashByPath (s : TemplateStores) (name relativePath : String) :
    Except Failure (Option BlockHash) :=
  (s.second.values name).map fun bs => bs.find? fun b => b.relativePath == relativePath

/-- The drift of a template, read from its source as it is now. -/
def checkDrift (s : TemplateStores) (p : Path) (src : Source) : Except Failure (List Diagnostic) :=
  checkFile s.first.values s.first.rows.length (record (Twig.parse src) src p)

end Templates
end ProjectIndex
