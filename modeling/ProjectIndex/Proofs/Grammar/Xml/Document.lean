import ProjectIndex.Grammar.Xml
import ProjectIndex.Proofs.Tree.Building
import ProjectIndex.Proofs.Tree.Tiling

/-!
Well-formed XML documents, given by the ranges of their parts in a source: elements with their tags,
attributes and content, and the nodes of their tree. All else, such as text, references, comments and
declarations, matters here only in that there are no elements in it.
-/
namespace ProjectIndex.Xml

open Shape

abbrev Range := Nat × Nat

def Range.text (src : Source) (r : Range) : List Char := Text.slice src r.1 r.2

def Elementless (s : Shape) : Prop := Throughout (fun c => c.kind ≠ "element") s

structure Markup where
  shape : Shape
  sound : shape.Sound
  elementless : Elementless shape

structure Attribute where
  range : Range
  name : Range
  equals : Range
  value : Range
  parts : List Markup

structure Tag where
  range : Range
  mark : Range
  name : Range
  attributes : List Attribute
  last : Range

structure EndTag where
  range : Range
  parts : List Markup

mutual

/-- An element with an empty-element tag, with nothing between its tags, or with content. -/
inductive Element where
  | empty (range : Range) (tag : Tag)
  | bare (range : Range) (tag : Tag) (close : EndTag)
  | full (range : Range) (tag : Tag) (inside : Range) (items : Items) (close : EndTag)

inductive Items where
  | nil
  | element (e : Element) (rest : Items)
  | markup (m : Markup) (rest : Items)

end

structure Document where
  range : Range
  before : List Markup
  root : Element
  after : List Markup

section Elements

namespace Attribute

def key (src : Source) (a : Attribute) : String := String.ofList (a.name.text src)

def written (src : Source) (a : Attribute) : List Char := a.value.text src

end Attribute

namespace Element

def range : Element → Range
  | .empty range _ => range
  | .bare range _ _ => range
  | .full range _ _ _ _ => range

def tag : Element → Tag
  | .empty _ tag => tag
  | .bare _ tag _ => tag
  | .full _ tag _ _ _ => tag

def name (src : Source) (e : Element) : String := String.ofList (e.tag.name.text src)

def line (src : Source) (e : Element) : Nat := (pointOf src e.range.1).line

end Element

def Items.elements : Items → List Element
  | .nil => []
  | .element e rest => e :: rest.elements
  | .markup _ rest => rest.elements

def Element.elements : Element → List Element
  | .empty .. => []
  | .bare .. => []
  | .full _ _ _ items _ => items.elements

def Element.content (src : Source) : Element → List Char
  | .empty .. => []
  | .bare .. => []
  | .full _ _ inside _ _ => inside.text src

mutual

/-- All elements inside of an element, each behind its parent, in document order. -/
def Element.nested : Element → List (Element × Element)
  | .empty .. => []
  | .bare .. => []
  | .full range tag inside items close => items.nested (.full range tag inside items close)

def Items.nested (parent : Element) : Items → List (Element × Element)
  | .nil => []
  | .element e rest => (parent, e) :: (e.nested ++ rest.nested parent)
  | .markup _ rest => rest.nested parent

end
end Elements

section Shapes

def Attribute.shape (a : Attribute) : Shape :=
  .node "Attribute" true false a.range.1 a.range.2
    [.named "Name" a.name.1 a.name.2, .token "=" a.equals.1 a.equals.2,
      .node "AttValue" true false a.value.1 a.value.2 (a.parts.map Markup.shape)]

def Tag.shape (kind last : String) (tag : Tag) : Shape :=
  .node kind true false tag.range.1 tag.range.2
    (.token "<" tag.mark.1 tag.mark.2 :: .named "Name" tag.name.1 tag.name.2 ::
      (tag.attributes.map Attribute.shape ++ [.token last tag.last.1 tag.last.2]))

def EndTag.shape (tag : EndTag) : Shape :=
  .node "ETag" true false tag.range.1 tag.range.2 (tag.parts.map Markup.shape)

mutual

def Element.shape : Element → Shape
  | .empty range tag => .node "element" true false range.1 range.2 [tag.shape "EmptyElemTag" "/>"]
  | .bare range tag close =>
    .node "element" true false range.1 range.2 [tag.shape "STag" ">", close.shape]
  | .full range tag inside items close =>
    .node "element" true false range.1 range.2
      [tag.shape "STag" ">", .node "content" true false inside.1 inside.2 items.shapes, close.shape]

def Items.shapes : Items → List Shape
  | .nil => []
  | .element e rest => e.shape :: rest.shapes
  | .markup m rest => m.shape :: rest.shapes

end

namespace Document

def shape (d : Document) : Shape :=
  .node "document" true false d.range.1 d.range.2
    (d.before.map Markup.shape ++ d.root.shape :: d.after.map Markup.shape)

def tree (src : Source) (d : Document) : SyntaxTree := d.shape.build src

end Document

theorem soundAll_markup (ms : List Markup) : SoundAll (ms.map Markup.shape) := by
  induction ms with
  | nil => trivial
  | cons m ms ih => exact ⟨m.sound, ih⟩

theorem elementless_of_mem_markup {ms : List Markup} {s : Shape} (h : s ∈ ms.map Markup.shape) :
    Elementless s := by
  obtain ⟨m, _, rfl⟩ := List.mem_map.1 h
  exact m.elementless

theorem Attribute.sound_shape (a : Attribute) : a.shape.Sound :=
  ⟨rfl, rfl, rfl, ⟨rfl, soundAll_markup a.parts⟩, trivial⟩

theorem elementless_leaf {kind : String} (h : kind ≠ "element") (named error : Bool)
    (start stop : Nat) : Elementless (.leaf kind named error start stop) :=
  ⟨h, fun c hc => by cases hc⟩

theorem elementless_node {kind : String} (h : kind ≠ "element") {start stop : Nat}
    {children : List Shape} (hchildren : ∀ c ∈ children, Elementless c) :
    Elementless (.node kind true false start stop children) :=
  ⟨h, hchildren⟩

theorem Attribute.elementless_shape (a : Attribute) : Elementless a.shape := by
  refine elementless_node (by decide) fun c hc => ?_
  rcases List.mem_cons.1 hc with rfl | hc
  · exact elementless_leaf (by decide) true false _ _
  · rcases List.mem_cons.1 hc with rfl | hc
    · exact elementless_leaf (by decide) false false _ _
    · rw [List.mem_singleton.1 hc]
      exact elementless_node (by decide) fun _ => elementless_of_mem_markup

theorem Tag.sound_shape (tag : Tag) (kind last : String) : (tag.shape kind last).Sound := by
  refine ⟨rfl, rfl, rfl, soundAll_append.2 ⟨?_, rfl, trivial⟩⟩
  induction tag.attributes with
  | nil => trivial
  | cons a attributes ih => exact ⟨a.sound_shape, ih⟩

theorem Tag.elementless_shape (tag : Tag) {kind last : String} (hkind : kind ≠ "element")
    (hlast : last ≠ "element") : Elementless (tag.shape kind last) := by
  refine elementless_node hkind fun c hc => ?_
  rcases List.mem_cons.1 hc with rfl | hc
  · exact elementless_leaf (by decide) false false _ _
  · rcases List.mem_cons.1 hc with rfl | hc
    · exact elementless_leaf (by decide) true false _ _
    · rcases List.mem_append.1 hc with hc | hc
      · obtain ⟨a, _, rfl⟩ := List.mem_map.1 hc
        exact a.elementless_shape
      · rw [List.mem_singleton.1 hc]
        exact elementless_leaf hlast false false _ _

theorem EndTag.sound_shape (tag : EndTag) : tag.shape.Sound := ⟨rfl, soundAll_markup tag.parts⟩

theorem EndTag.elementless_shape (tag : EndTag) : Elementless tag.shape :=
  elementless_node (by decide) fun _ => elementless_of_mem_markup

mutual

theorem Element.sound_shape : ∀ e : Element, e.shape.Sound
  | .empty _ tag => by
    rw [Element.shape]
    exact ⟨rfl, tag.sound_shape _ _, trivial⟩
  | .bare _ tag close => by
    rw [Element.shape]
    exact ⟨rfl, tag.sound_shape _ _, close.sound_shape, trivial⟩
  | .full _ tag _ items close => by
    rw [Element.shape]
    exact ⟨rfl, tag.sound_shape _ _, ⟨rfl, items.soundAll_shapes⟩, close.sound_shape, trivial⟩

theorem Items.soundAll_shapes : ∀ items : Items, SoundAll items.shapes
  | .nil => trivial
  | .element e rest => by
    rw [Items.shapes]
    exact ⟨e.sound_shape, rest.soundAll_shapes⟩
  | .markup m rest => by
    rw [Items.shapes]
    exact ⟨m.sound, rest.soundAll_shapes⟩

end

theorem Document.laid_tree (d : Document) (src : Source) :
    (d.tree src).root = 0 ∧ (d.tree src).size = d.shape.size ∧
      Laid src (d.tree src).node none 0 d.shape :=
  laid_build (soundAll_append.2 ⟨soundAll_markup d.before, d.root.sound_shape,
    soundAll_markup d.after⟩)

end Shapes
end ProjectIndex.Xml
