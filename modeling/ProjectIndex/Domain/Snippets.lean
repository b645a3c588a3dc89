import ProjectIndex.Domain.Literal
import ProjectIndex.Domain.Stores
import ProjectIndex.Tree.Pattern

/-! Texts in a language. The members of nested objects are joined by dots into one key. -/
namespace ProjectIndex

structure Snippet where
  key : String
  text : String
  file : String
  line : Nat
deriving DecidableEq, Inhabited, Repr

abbrev SnippetStores := StorePair Snippet Snippet

namespace Snippets

inductive Kind where
  | storefront
  | administration
deriving DecidableEq, Inhabited, Repr

/-- What a path holds: snippets of the storefront anywhere below `Resources/snippet`, those of the
administration directly inside a `snippet` directory. -/
def kindOf? (p : Path) : Option Kind :=
  let slashed := p.slashed
  if Text.contains slashed "/_fixtures/".toList || !Text.endsWith slashed ".json".toList then none
  else if Text.contains slashed "/Resources/snippet/".toList then some .storefront
  else if Text.contains slashed ('/' :: administrationDir ++ ['/']) &&
      (p.parent?.bind Path.fileName?) == some "snippet".toList then some .administration
  else none

/-- A member that holds no object and lies in no array. -/
def entry : Pattern :=
  .all [.kind "pair", .not (.hasChild (.kind "object")),
    .not (.ancestor (.kind "array") 18446744073709551615)]

variable (t : SyntaxTree) (src : Source)

def memberName? (pair : NodeId) : Option (List Char) :=
  ((t.namedChild? pair 0).filter fun k => t.kind k == "string").map (stringLiteral t src)

def dottedKey? (pair : NodeId) : Option (List Char) :=
  (((pair :: t.ancestors pair).filter fun i => t.kind i == "pair").mapM (memberName? t src)).map
    fun names => Text.joinWith ['.'] names.reverse

def scalarText? (value : NodeId) : Option String :=
  match t.kind value with
  | "string" => some (stringValue t src value)
  | "number" => some (textString t src value)
  | "true" => some (textString t src value)
  | "false" => some (textString t src value)
  | "null" => some (textString t src value)
  | _ => none

def snippet? (p : Path) (pair : NodeId) : Option (String × Snippet) := do
  let value ← t.namedChild? pair 1
  let text ← scalarText? t src value
  let key ← dottedKey? t src pair
  let key := String.ofList key
  some (key, { key, text, file := p.toString, line := t.line pair })

def extract (p : Path) : FileFacts Snippet :=
  (entry.findAll t src t.root).filterMap (snippet? t src p)

def accepts (p : Path) : Bool := (kindOf? p).isSome

def indexer : Indexer SnippetStores :=
  StorePair.indexer "snippets" accepts fun _ p t src s =>
    match kindOf? p with
    | some .storefront => s.inFirst (·.save [(p, extract t src p)])
    | some .administration => s.inSecond (·.save [(p, extract t src p)])
    | none => (s, none)

def emptyStores : SnippetStores := ⟨.new "storefront_snippets", .new "admin_snippets"⟩

end Snippets
end ProjectIndex
