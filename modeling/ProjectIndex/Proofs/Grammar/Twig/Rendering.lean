import Mathlib.Data.List.Basic
import ProjectIndex.Grammar.Twig.Tree
import ProjectIndex.Proofs.Grammar.Twig.Template
import ProjectIndex.Proofs.Tree.Frames
import ProjectIndex.Proofs.Tree.Sketch

/-!
The tree of a rendered template is the template: one node for each item, in the same order and
nesting, with the names and arguments as children.
-/
namespace ProjectIndex.Twig

open ProjectIndex.Text ProjectIndex.Shape TreeBuilder

namespace Argument

def kind : Argument → String
  | identifier _ => "identifier"
  | string .. => "string"

def sketch (a : Argument) : Sketch := .mk a.kind true a.chars []

def shape (pos : Nat) (a : Argument) : Shape := .named a.kind pos (pos + byteLength a.chars)

def shapes (pos : Nat) : List Argument → List Shape
  | [] => []
  | a :: rest => a.shape (pos + 1) :: shapes (pos + 1 + byteLength a.chars) rest

end Argument

namespace Item

mutual

/-- What the tree shows of an item; blank text leaves no node. -/
def sketches : Item → List Sketch
  | text chars => if chars.all isBlank then [] else [.mk "content" true chars []]
  | comment body => [.mk "comment" true (render (comment body)) []]
  | output body => [.mk "output" true (render (output body)) []]
  | tag name args =>
    [.mk "tag" true (render (tag name args)) (.mk "name" true name [] :: args.map Argument.sketch)]
  | block name items =>
    [.mk "block" true (render (block name items)) (.mk "identifier" true name [] ::
      (sketchesAll items ++
        [.mk "endblock" false (Delimiter.statement.wrap (statementOf endWords)) []]))]

def sketchesAll : List Item → List Sketch
  | [] => []
  | item :: rest => item.sketches ++ sketchesAll rest

end

def beforeName : Nat := 3

def beforeBlockName : Nat := 9

mutual

def shapes (pos : Nat) : Item → List Shape
  | text chars =>
    if chars.all isBlank then [] else [.named "content" pos (pos + byteLength chars)]
  | comment body => [.named "comment" pos (pos + byteLength (render (comment body)))]
  | output body => [.named "output" pos (pos + byteLength (render (output body)))]
  | tag name args =>
    let behind := pos + beforeName + byteLength name
    [.node "tag" true false pos (pos + byteLength (render (tag name args)))
      (.named "name" (pos + beforeName) behind :: Argument.shapes behind args)]
  | block name items =>
    let inner := pos + byteLength (Delimiter.statement.wrap (statementOf (blockWords name)))
    let behind := inner + byteLength (renderAll items)
    let stop := behind + byteLength (Delimiter.statement.wrap (statementOf endWords))
    [.node "block" true false pos stop
      (.named "identifier" (pos + beforeBlockName) (pos + beforeBlockName + byteLength name) ::
        (shapesAll inner items ++ [.token "endblock" behind stop]))]

def shapesAll (pos : Nat) : List Item → List Shape
  | [] => []
  | item :: rest => item.shapes pos ++ shapesAll (pos + byteLength item.render) rest

end

theorem shapesAll_append (pos : Nat) (xs ys : List Item) :
    shapesAll pos (xs ++ ys) = shapesAll pos xs ++ shapesAll (pos + byteLength (renderAll xs)) ys := by
  induction xs generalizing pos with
  | nil =>
    rw [List.nil_append, renderAll, shapesAll, List.nil_append, byteLength_nil, Nat.add_zero]
  | cons item xs ih =>
    rw [List.cons_append, shapesAll, ih, shapesAll, renderAll, byteLength_append, Nat.add_assoc,
      List.append_assoc]

end Item

section Building

variable {src : Source} {b : TreeBuilder} {f : Frame} {fs : List Frame} {pos stop : Nat}
  {name : List Char} {args : List Argument} {items : List Item}

theorem stands_addArguments (args : List Argument) (pos : Nat) (h : b.Stands src (f :: fs)) :
    (addArguments b (tokensOf pos args)).Stands src
      (f.addAll (Argument.shapes pos args) :: fs) := by
  induction args generalizing b f pos with
  | nil =>
    rw [tokensOf, addArguments, Argument.shapes, Frame.addAll_nil]
    exact h
  | cons a args ih =>
    have hleaf := h.leaf a.kind true (pos + 1) (pos + 1 + byteLength a.chars)
    have hrest := ih (pos + 1 + byteLength a.chars) hleaf
    rw [Frame.addAll_add] at hrest
    rw [Argument.shapes]
    cases a with
    | identifier name => exact hrest
    | string quote inside => exact hrest

theorem addSegments_append (b : TreeBuilder) (pos : Nat) (xs ys : List Segment) :
    addSegments b pos (xs ++ ys) =
      addSegments (addSegments b pos xs) (pos + byteLength (xs.flatMap Segment.chars)) ys := by
  induction xs generalizing b pos with
  | nil => rfl
  | cons s xs ih =>
    rw [List.cons_append, addSegments, ih, addSegments, List.flatMap_cons, byteLength_append,
      Nat.add_assoc]

theorem chars_wrap (d : Delimiter) (body : List Char) : (d.segment body true).chars = d.wrap body := by
  cases d <;> simp [Delimiter.segment, Segment.chars, Delimiter.wrap, Delimiter.opening,
    Delimiter.closing]

theorem addSegment_statement (h : ∀ a ∈ args, a.WellFormed) :
    addSegment b pos (.statement (statementOf args) true) =
      addStatement b pos (pos + byteLength (Delimiter.statement.wrap (statementOf args)))
        (tokensOf (pos + 2) args) := by
  rw [← tokenize_statementOf h]
  rfl

theorem addStatement_tag (hblock : name ≠ "block".toList) (hend : name ≠ "endblock".toList) :
    addStatement b pos stop (tokensOf (pos + 2) (Item.tagWords name args)) =
      (addArguments
        ((b.openNode "tag" true pos).leaf "name" true (pos + 3) (pos + 3 + byteLength name))
        (tokensOf (pos + 3 + byteLength name) args)).close stop := by
  have hne : ∀ word : List Char, name ≠ word → (name == word) = false := fun _ =>
    beq_eq_false_iff_ne.2
  change (if (name == "block".toList) = true then _
    else if (name == "endblock".toList) = true then _ else _) = _
  rw [hne _ hblock, hne _ hend]
  rfl

namespace Item

mutual

theorem flatMap_segments : ∀ item : Item, item.segments.flatMap Segment.chars = item.render
  | text chars => by
    rw [segments, render, List.flatMap_singleton]
    rfl
  | comment body => by
    rw [segments, render, List.flatMap_singleton]
    exact chars_wrap .comment body
  | output body => by
    rw [segments, render, List.flatMap_singleton]
    exact chars_wrap .output body
  | tag name args => by
    rw [segments, render, List.flatMap_singleton]
    exact chars_wrap .statement _
  | block name items => by
    rw [segments, render, List.flatMap_cons, List.flatMap_append, flatMap_segmentsAll items,
      List.flatMap_singleton]
    rfl

theorem flatMap_segmentsAll : ∀ items : List Item,
    (segmentsAll items).flatMap Segment.chars = renderAll items
  | [] => by rw [segmentsAll, renderAll, List.flatMap_nil]
  | item :: items => by
    rw [segmentsAll, renderAll, List.flatMap_append, flatMap_segments item,
      flatMap_segmentsAll items]

end

def opened (b : TreeBuilder) (pos : Nat) (name : List Char) : Frame :=
  ⟨b.nodes.size, "block", true, pos,
    [.named "identifier" (pos + beforeBlockName) (pos + beforeBlockName + byteLength name)]⟩

theorem stands_opened (pos : Nat) (hname : IsIdentifier name) (h : b.Stands src (f :: fs)) :
    (addSegment b pos (.statement (statementOf (blockWords name)) true)).Stands src
      (opened b pos name :: f :: fs) := by
  rw [addSegment_statement (wellFormed_words hname)]
  exact (h.openNode "block" true pos).leaf "identifier" true (pos + beforeBlockName)
    (pos + beforeBlockName + byteLength name)

theorem stands_ended (pos : Nat) {g : Frame} (hkind : g.kind = "block") (h : b.Stands src (g :: f :: fs)) :
    let stop := pos + byteLength (Delimiter.statement.wrap (statementOf endWords))
    (addSegment b pos (.statement (statementOf endWords) true)).Stands src
      (f.add ((g.add (.token "endblock" pos stop)).shape false stop) :: fs) := by
  intro stop
  have hcurrent : b.currentKind? = some "block" := hkind ▸ h.currentKind?
  have hclosed := (h.leaf "endblock" false pos stop).close stop
  rw [addSegment_statement wellFormed_endWords]
  change (addEndBlock b pos stop).Stands src _
  rw [addEndBlock, if_pos hcurrent]
  exact hclosed

mutual

/-- Reading the segments of an item adds its nodes to the innermost open one. -/
theorem stands_segments : ∀ (item : Item) (pos : Nat) {b : TreeBuilder} {f : Frame}
    {fs : List Frame}, item.WellFormed → b.Stands src (f :: fs) →
      (addSegments b pos item.segments).Stands src (f.addAll (item.shapes pos) :: fs)
  | .text chars, pos, b, f, fs, _, h => by
    rw [segments, shapes]
    change (if chars.all isBlank = true then b else _).Stands src _
    split
    · rw [Frame.addAll_nil]
      exact h
    · exact h.leaf "content" true pos _
  | .comment body, pos, b, f, fs, _, h => by
    rw [segments, shapes, render, ← chars_wrap]
    exact h.leaf "comment" true pos _
  | .output body, pos, b, f, fs, _, h => by
    rw [segments, shapes, render, ← chars_wrap]
    exact h.leaf "output" true pos _
  | .tag name args, pos, b, f, fs, hitem, h => by
    rw [WellFormed] at hitem
    obtain ⟨hname, hblock, hend, hargs⟩ := hitem
    have hopen := (h.openNode "tag" true pos).leaf "name" true (pos + 3) (pos + 3 + byteLength name)
    have hall := stands_addArguments args (pos + 3 + byteLength name) hopen
    have hclosed := hall.close (pos + byteLength (render (tag name args)))
    rw [segments, shapes]
    change (addSegment b pos (.statement (statementOf (tagWords name args)) true)).Stands src _
    rw [addSegment_statement (wellFormed_tagWords hname hargs), addStatement_tag hblock hend]
    rw [render] at hclosed ⊢
    exact hclosed
  | .block name items, pos, b, f, fs, hitem, h => by
    rw [WellFormed] at hitem
    obtain ⟨hname, hitems⟩ := hitem
    have hopen := stands_opened pos hname h
    have hinside := stands_segmentsAll items
      (pos + byteLength (Delimiter.statement.wrap (statementOf (blockWords name)))) hitems hopen
    have hended := stands_ended (pos + byteLength (Delimiter.statement.wrap
      (statementOf (blockWords name))) + byteLength (renderAll items)) rfl hinside
    rw [segments, shapes, addSegments, addSegments_append, flatMap_segmentsAll]
    exact hended

theorem stands_segmentsAll : ∀ (items : List Item) (pos : Nat) {b : TreeBuilder} {f : Frame}
    {fs : List Frame}, AllWellFormed items → b.Stands src (f :: fs) →
      (addSegments b pos (segmentsAll items)).Stands src (f.addAll (shapesAll pos items) :: fs)
  | [], pos, b, f, fs, _, h => by
    rw [segmentsAll, shapesAll, addSegments, Frame.addAll_nil]
    exact h
  | item :: items, pos, b, f, fs, hitems, h => by
    rw [AllWellFormed] at hitems
    obtain ⟨hitem, hrest, _⟩ := hitems
    have hone := stands_segments item pos hitem h
    have hall := stands_segmentsAll items (pos + byteLength item.render) hrest hone
    rw [segmentsAll, shapesAll, addSegments_append, flatMap_segments]
    rw [Frame.addAll_addAll] at hall
    exact hall

end

theorem laid_parse_renderAll (h : AllWellFormed items) :
    let src := renderAll items
    let shape := Shape.node "template" true false 0 (byteLength src) (shapesAll 0 items)
    (parse src).root = 0 ∧ (parse src).size = shape.size ∧
      Laid src (parse src).node none 0 shape := by
  intro src shape
  have hread := stands_segmentsAll items 0 h (stands_root src "template" true)
  rw [parse, cut_renderAll h, hread.opened]
  change ((closeBlocks _ [0]).close _).finish.root = 0 ∧ _
  rw [closeBlocks, hread.sourceLength]
  exact hread.finish (byteLength src)

end Item
end Building

section Sketches

variable {src : Source} {pos : Nat}

theorem sketchAll_leaf {kind : String} {named : Bool} {chars : List Char}
    (h : OccursAt src pos chars) (xs : List Shape) :
    sketchAll src (.leaf kind named false pos (pos + byteLength chars) :: xs) =
      .mk kind named chars [] :: sketchAll src xs := by
  rw [sketchAll, Shape.sketch, h.slice_eq]

theorem sketchAll_arguments {args : List Argument} (h : OccursAt src pos (statementOf args)) :
    sketchAll src (Argument.shapes pos args) = args.map Argument.sketch := by
  induction args generalizing pos with
  | nil => rfl
  | cons a args ih =>
    have hbehind : OccursAt src (pos + 1) (a.chars ++ statementOf args) := h.right (x := [' '])
    rw [Argument.shapes, Argument.shape, Shape.named, sketchAll_leaf hbehind.left,
      ih hbehind.right]
    rfl

namespace Item

mutual

theorem sketchAll_shapes : ∀ (item : Item) {pos : Nat}, OccursAt src pos item.render →
    sketchAll src (item.shapes pos) = item.sketches
  | .text chars, pos, h => by
    rw [render] at h
    rw [shapes, sketches]
    split
    · rfl
    · exact sketchAll_leaf h []
  | .comment body, pos, h => by
    rw [shapes, sketches]
    exact sketchAll_leaf h []
  | .output body, pos, h => by
    rw [shapes, sketches]
    exact sketchAll_leaf h []
  | .tag name args, pos, h => by
    have hwhole := h.slice_eq
    rw [render] at h
    have hwords : OccursAt src (pos + beforeName) (name ++ statementOf args ++ ['%', '}']) :=
      h.right (x := ['{', '%', ' '])
    rw [shapes, sketches, Shape.named, sketchAll, Shape.sketch, hwhole,
      sketchAll_leaf hwords.left.left,
      sketchAll_arguments hwords.left.right]
    rfl
  | .block name items, pos, h => by
    have hwhole := h.slice_eq
    rw [render] at h
    have hname : OccursAt src (pos + beforeBlockName) (name ++ [' '] ++ ['%', '}']) :=
      h.left.right (x := ['{', '%', ' ', 'b', 'l', 'o', 'c', 'k', ' '])
    conv at hwhole => lhs; rw [render, byteLength_append, byteLength_append, ← Nat.add_assoc,
      ← Nat.add_assoc]
    rw [shapes, sketches, Shape.named, Shape.token, sketchAll, Shape.sketch, hwhole,
      sketchAll_leaf hname.left.left, sketchAll_append, sketchAll_shapesAll items h.right.left,
      sketchAll_leaf h.right.right]
    rfl

theorem sketchAll_shapesAll : ∀ (items : List Item) {pos : Nat}, OccursAt src pos (renderAll items) →
    sketchAll src (shapesAll pos items) = sketchesAll items
  | [], pos, _ => by rw [shapesAll, sketchesAll, sketchAll]
  | item :: items, pos, h => by
    rw [renderAll] at h
    rw [shapesAll, sketchesAll, sketchAll_append, sketchAll_shapes item h.left,
      sketchAll_shapesAll items h.right]

end

theorem soundAll_arguments (args : List Argument) (pos : Nat) :
    SoundAll (Argument.shapes pos args) := by
  induction args generalizing pos with
  | nil => trivial
  | cons a args ih => exact ⟨rfl, ih _⟩

mutual

theorem soundAll_shapes : ∀ (item : Item) (pos : Nat), SoundAll (item.shapes pos)
  | .text chars, pos => by
    rw [shapes]
    split
    · trivial
    · exact ⟨rfl, trivial⟩
  | .comment body, pos => by
    rw [shapes]
    exact ⟨rfl, trivial⟩
  | .output body, pos => by
    rw [shapes]
    exact ⟨rfl, trivial⟩
  | .tag name args, pos => by
    rw [shapes]
    exact ⟨⟨rfl, rfl, soundAll_arguments args _⟩, trivial⟩
  | .block name items, pos => by
    rw [shapes]
    exact ⟨⟨rfl, rfl, soundAll_append.2 ⟨soundAll_shapesAll items _, rfl, trivial⟩⟩, trivial⟩

theorem soundAll_shapesAll : ∀ (items : List Item) (pos : Nat), SoundAll (shapesAll pos items)
  | [], pos => by
    rw [shapesAll]
    trivial
  | item :: items, pos => by
    rw [shapesAll, soundAll_append]
    exact ⟨soundAll_shapes item pos, soundAll_shapesAll items _⟩

end

def sketch (items : List Item) : Sketch :=
  .mk "template" true (renderAll items) (sketchesAll items)

/-- A template that is rendered and parsed is back, node for node, without any error. -/
theorem parse_renderAll {items : List Item} (h : AllWellFormed items) :
    let t := parse (renderAll items)
    t.hasError = false ∧ t.sketch (renderAll items) = sketch items ∧ t.size = (sketch items).size := by
  intro t
  obtain ⟨hroot, hsize, hlaid⟩ := laid_parse_renderAll h
  have hshown : Shape.sketch (renderAll items) (.node "template" true false 0
      (byteLength (renderAll items)) (shapesAll 0 items)) = sketch items := by
    have hwhole := (OccursAt.self (renderAll items)).slice_eq
    rw [Nat.zero_add] at hwhole
    rw [Shape.sketch, hwhole, sketchAll_shapesAll items (OccursAt.self _), sketch]
  refine ⟨hlaid.hasError_eq hsize ⟨rfl, soundAll_shapesAll items 0⟩, ?_, ?_⟩
  · rw [hlaid.sketch_eq hroot hsize, hshown]
  · rw [hsize, ← hshown, Shape.size_sketch]

/-- A block in a block, with text beyond ASCII and a terminator inside a string. -/
def nested : List Item :=
  [.text ['é'], .block ['o', 'u', 't'] [.comment [' ', '#'], .output ['é'],
    .tag ['u', 's', 'e'] [.string '"' ['%', '}', 'é'], .identifier ['_', '1']],
    .block ['i', 'n'] [.text ['é', '\n']], .text ['}', '}']]]

theorem parse_renderAll_nested :
    AllWellFormed nested ∧
      let t := parse (renderAll nested)
      t.hasError = false ∧ t.sketch (renderAll nested) = sketch nested ∧
        t.size = (sketch nested).size := by
  have hnested : AllWellFormed nested := by decide
  exact ⟨hnested, parse_renderAll hnested⟩

end Item
end Sketches
end ProjectIndex.Twig
