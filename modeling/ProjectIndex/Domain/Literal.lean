import ProjectIndex.Text.Blank
import ProjectIndex.Text.Search
import ProjectIndex.Tree.Basic

/-! The values of quoted literals in a tree. -/
namespace ProjectIndex

/-- Strips blanks and then one layer of matching quotes. -/
def unquote (text : List Char) : List Char :=
  let t := Text.trim text
  (['"', '\'', '\x60'].findSome? fun q =>
    (Text.dropStart? [q] t).bind fun rest => Text.dropEnd? [q] rest).getD t

/-- The value of a string node: its first run of plain text, or else its text without the quotes. -/
def stringLiteral (t : SyntaxTree) (src : Source) (i : NodeId) : List Char :=
  match (t.children i).find? fun c =>
      t.kind c == "string_fragment" || t.kind c == "string_content" with
  | some c => t.text src c
  | none => unquote (t.text src i)

def stringValue (t : SyntaxTree) (src : Source) (i : NodeId) : String :=
  String.ofList (stringLiteral t src i)

def textString (t : SyntaxTree) (src : Source) (i : NodeId) : String := String.ofList (t.text src i)

def administrationDir : List Char := "Resources/app/administration".toList

end ProjectIndex
