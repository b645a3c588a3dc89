import ProjectIndex.Grammar.Json
import ProjectIndex.Proofs.Grammar.Quoted
import ProjectIndex.Proofs.Text.Search
import ProjectIndex.Proofs.Tree.Building

/-!
JSON documents: values with the blanks around their tokens, the text they are written as, and the
nodes of their tree. The names of members are plain text; they may be repeated.
-/
namespace ProjectIndex.Json

open ProjectIndex.Text

structure Gap where
  chars : List Char
  blank : ∀ c ∈ chars, isBlank c = true

def isPlainChar (c : Char) : Bool := c != '"' && c != '\\' && c != '\n'

def isReadable : LiteralPart → Bool
  | .plain chars => chars.all isPlainChar
  | .escape ['\\', _] => true
  | .escape _ => false

structure StringText where
  content : LiteralText
  readable : ∀ part ∈ content.parts, isReadable part = true

def StringText.literal (s : StringText) : Literal := ⟨'"', .inl rfl, s.content⟩

structure MemberName where
  chars : List Char
  plain : ∀ c ∈ chars, isPlainChar c = true

namespace MemberName

def parts (n : MemberName) : List LiteralPart := if n.chars = [] then [] else [.plain n.chars]

theorem eq_of_mem_parts {n : MemberName} {part : LiteralPart} (h : part ∈ n.parts) :
    n.chars ≠ [] ∧ part = .plain n.chars := by
  rw [parts] at h
  split at h
  · cases h
  · exact ⟨‹_›, List.mem_singleton.1 h⟩

def text (n : MemberName) : StringText where
  content :=
    { parts := n.parts
      nonempty := by
        intro part hpart
        obtain ⟨hne, rfl⟩ := eq_of_mem_parts hpart
        exact hne
      maximal := by
        rw [parts]
        split
        · exact List.isChain_nil
        · exact List.isChain_singleton _ }
  readable := by
    intro part hpart
    obtain ⟨_, rfl⟩ := eq_of_mem_parts hpart
    exact List.all_eq_true.2 n.plain

theorem chars_text (n : MemberName) : n.text.content.chars = n.chars := by
  change n.parts.flatMap LiteralPart.chars = _
  rw [parts]
  split
  · next h => rw [h]; rfl
  · exact List.flatMap_singleton _ _

theorem isPlain_text (n : MemberName) : n.text.content.isPlain = true := by
  refine List.all_eq_true.2 fun part hpart => ?_
  obtain ⟨_, rfl⟩ := eq_of_mem_parts hpart
  rfl

end MemberName

/-- The part of a number that scales it by a power of ten. A plus sign in it is an error to the
reader. -/
structure Exponent where
  mark : Char
  negative : Bool
  digits : List Char
  isMark : mark = 'e' ∨ mark = 'E'
  isRun : IsRun Char.isDigit digits

structure Number where
  negative : Bool
  whole : List Char
  fraction : Option (List Char)
  exponent : Option Exponent
  isWhole : whole = ['0'] ∨ IsRun Char.isDigit whole ∧ whole.head? ≠ some '0'
  isFraction : ∀ digits ∈ fraction, IsRun Char.isDigit digits

def minus (negative : Bool) : List Char := if negative then ['-'] else []

def Exponent.chars (e : Exponent) : List Char := e.mark :: (minus e.negative ++ e.digits)

namespace Number

def fractionChars (n : Number) : List Char := (n.fraction.map ('.' :: ·)).getD []

def exponentChars (n : Number) : List Char := (n.exponent.map Exponent.chars).getD []

def chars (n : Number) : List Char :=
  minus n.negative ++ (n.whole ++ (n.fractionChars ++ n.exponentChars))

end Number

inductive Word where
  | yes
  | no
  | null
deriving DecidableEq, Repr

def Word.kind : Word → String
  | yes => "true"
  | no => "false"
  | null => "null"

def Word.chars (w : Word) : List Char := w.kind.toList

mutual

inductive Value where
  | string (text : StringText)
  | number (n : Number)
  | word (w : Word)
  | array (items : Items)
  | object (members : Members)

inductive Items where
  | nil (gap : Gap)
  | cons (before : Gap) (value : Value) (after : Gap) (rest : Items)

inductive Members where
  | nil (gap : Gap)
  | cons (before : Gap) (name : MemberName) (beforeColon afterColon : Gap) (value : Value) (after : Gap)
      (rest : Members)

end

structure Document where
  mark : Bool
  before : Gap
  value : Value
  after : Gap

section Rendering

def Items.comma : Items → List Char
  | .nil _ => []
  | .cons .. => [',']

def Members.comma : Members → List Char
  | .nil _ => []
  | .cons .. => [',']

mutual

def Value.chars : Value → List Char
  | .string s => s.literal.text
  | .number n => n.chars
  | .word w => w.chars
  | .array items => '[' :: (items.chars ++ [']'])
  | .object members => '\x7b' :: (members.chars ++ ['\x7d'])

def Items.chars : Items → List Char
  | .nil gap => gap.chars
  | .cons before value after rest =>
    before.chars ++ (value.chars ++ (after.chars ++ (rest.comma ++ rest.chars)))

def Members.chars : Members → List Char
  | .nil gap => gap.chars
  | .cons before name beforeColon afterColon value after rest =>
    before.chars ++ (name.text.literal.text ++ (beforeColon.chars ++ (':' :: (afterColon.chars ++
      (value.chars ++ (after.chars ++ (rest.comma ++ rest.chars)))))))

end

namespace Document

def lead (d : Document) : List Char := (if d.mark then ['\uFEFF'] else []) ++ d.before.chars

def text (d : Document) : Source := d.lead ++ (d.value.chars ++ d.after.chars)

end Document
end Rendering

section Places

def beforeValue (start : List Char) (name : MemberName) (beforeColon afterColon : Gap) : List Char :=
  start ++ name.text.literal.text ++ beforeColon.chars ++ [':'] ++ afterColon.chars

def behindValue (first : List Char) (value : Value) (after : Gap) : List Char :=
  first ++ value.chars ++ after.chars

theorem places_of_items {src : Source} {before after : List Char} {gap afterValue : Gap}
    {value : Value} {rest : Items}
    (h : src = before ++ ((Items.cons gap value afterValue rest).chars ++ after)) :
    let first := before ++ gap.chars
    (∃ w, src = first ++ (value.chars ++ w)) ∧
      src = behindValue first value afterValue ++ rest.comma ++ (rest.chars ++ after) := by
  intro first
  rw [Items.chars] at h
  refine ⟨⟨afterValue.chars ++ (rest.comma ++ (rest.chars ++ after)), ?_⟩, ?_⟩
  · rw [h]
    simp [first]
  · rw [h]
    simp [first, behindValue]

theorem places_of_members {src : Source} {before after : List Char} {name : MemberName}
    {gap beforeColon afterColon afterValue : Gap} {value : Value} {rest : Members}
    (h : src = before ++
      ((Members.cons gap name beforeColon afterColon value afterValue rest).chars ++ after)) :
    let start := before ++ gap.chars
    let first := beforeValue start name beforeColon afterColon
    (∃ w, src = start ++ (name.text.literal.text ++ w)) ∧ (∃ w, src = first ++ (value.chars ++ w)) ∧
      src = behindValue first value afterValue ++ rest.comma ++ (rest.chars ++ after) := by
  intro start first
  rw [Members.chars] at h
  refine ⟨⟨beforeColon.chars ++ ':' :: (afterColon.chars ++ (value.chars ++ (afterValue.chars ++
      (rest.comma ++ (rest.chars ++ after))))), ?_⟩,
    ⟨afterValue.chars ++ (rest.comma ++ (rest.chars ++ after)), ?_⟩, ?_⟩
  · rw [h]
    simp [start]
  · rw [h]
    simp [first, start, beforeValue]
  · rw [h]
    simp [first, start, beforeValue, behindValue]

end Places

section Shapes

def leafAt (kind : String) (named : Bool) (before text : List Char) : Shape :=
  .leaf kind named false (byteLength before) (byteLength (before ++ text))

def commaShapes (before : List Char) : List Char → List Shape
  | [] => []
  | _ :: _ => [leafAt "," false before [',']]

def StringText.shape (before : List Char) (s : StringText) : Shape :=
  s.literal.shape "string_content" (byteLength before)

def memberShape (start : List Char) (name : MemberName) (beforeColon afterColon : Gap)
    (value : List Char) (valueShape : Shape) : Shape :=
  let colon := start ++ name.text.literal.text ++ beforeColon.chars
  .node "pair" true false (byteLength start)
    (byteLength (beforeValue start name beforeColon afterColon ++ value))
    [name.text.shape start, leafAt ":" false colon [':'], valueShape]

mutual

def Value.shape (before : List Char) : Value → Shape
  | .string s => s.shape before
  | .number n => leafAt "number" true before n.chars
  | .word w => leafAt w.kind true before w.chars
  | .array items =>
    let inside := before ++ ['[']
    let last := inside ++ items.chars
    .node "array" true false (byteLength before) (byteLength (last ++ [']']))
      (leafAt "[" false before ['['] :: (items.shapes inside ++ [leafAt "]" false last [']']]))
  | .object members =>
    let inside := before ++ ['\x7b']
    let last := inside ++ members.chars
    .node "object" true false (byteLength before) (byteLength (last ++ ['\x7d']))
      (leafAt "\x7b" false before ['\x7b'] ::
        (members.shapes inside ++ [leafAt "\x7d" false last ['\x7d']]))

def Items.shapes (before : List Char) : Items → List Shape
  | .nil _ => []
  | .cons gap value after rest =>
    let first := before ++ gap.chars
    let behind := behindValue first value after
    value.shape first :: (commaShapes behind rest.comma ++ rest.shapes (behind ++ rest.comma))

def Members.shapes (before : List Char) : Members → List Shape
  | .nil _ => []
  | .cons gap name beforeColon afterColon value after rest =>
    let start := before ++ gap.chars
    let first := beforeValue start name beforeColon afterColon
    let behind := behindValue first value after
    memberShape start name beforeColon afterColon value.chars (value.shape first) ::
      (commaShapes behind rest.comma ++ rest.shapes (behind ++ rest.comma))

end

namespace Document

def shape (d : Document) : Shape :=
  .node "document" true false (byteLength d.lead) (byteLength d.text) [d.value.shape d.lead]

def tree (d : Document) : SyntaxTree := d.shape.build d.text

end Document

theorem Value.isNamed_shape (v : Value) (before : List Char) : (v.shape before).isNamed = true := by
  cases v <;> rw [Value.shape] <;> rfl

theorem soundAll_commaShapes (before comma : List Char) :
    Shape.SoundAll (commaShapes before comma) := by
  cases comma with
  | nil => trivial
  | cons => exact ⟨rfl, trivial⟩

mutual

theorem Value.sound_shape : ∀ (v : Value) (before : List Char), (v.shape before).Sound
  | .string s, before => s.literal.sound_shape "string_content" (byteLength before)
  | .number _, _ => rfl
  | .word _, _ => rfl
  | .array items, before => by
    rw [Value.shape]
    exact ⟨rfl, rfl, Shape.soundAll_append.2 ⟨items.soundAll_shapes _, rfl, trivial⟩⟩
  | .object members, before => by
    rw [Value.shape]
    exact ⟨rfl, rfl, Shape.soundAll_append.2 ⟨members.soundAll_shapes _, rfl, trivial⟩⟩

theorem Items.soundAll_shapes : ∀ (items : Items) (before : List Char),
    Shape.SoundAll (items.shapes before)
  | .nil _, _ => trivial
  | .cons gap value after rest, before => by
    rw [Items.shapes]
    refine ⟨value.sound_shape _, Shape.soundAll_append.2 ⟨?_, rest.soundAll_shapes _⟩⟩
    exact soundAll_commaShapes _ rest.comma

theorem Members.soundAll_shapes : ∀ (members : Members) (before : List Char),
    Shape.SoundAll (members.shapes before)
  | .nil _, _ => trivial
  | .cons gap name beforeColon afterColon value after rest, before => by
    have hname := name.text.literal.sound_shape "string_content" (byteLength (before ++ gap.chars))
    rw [Members.shapes]
    refine ⟨⟨rfl, hname, rfl, value.sound_shape _, trivial⟩,
      Shape.soundAll_append.2 ⟨?_, rest.soundAll_shapes _⟩⟩
    exact soundAll_commaShapes _ rest.comma

end

/-- The tree of a document is laid out as its shape. -/
theorem Document.laid_tree (d : Document) :
    d.tree.root = 0 ∧ d.tree.size = d.shape.size ∧
      Shape.Laid d.text d.tree.node none 0 d.shape :=
  Shape.laid_build ⟨d.value.sound_shape _, trivial⟩

end Shapes

section Sizes

theorem Number.chars_ne_nil (n : Number) : n.chars ≠ [] := by
  have hwhole : n.whole ≠ [] := by
    rcases n.isWhole with h | h
    · rw [h]
      exact List.cons_ne_nil _ _
    · exact h.1.1
  intro h
  rw [chars, List.append_eq_nil_iff, List.append_eq_nil_iff] at h
  exact hwhole h.2.1

theorem sizeAll_literalParts (fragment : String) (parts : List LiteralPart) (pos : Nat) :
    Shape.sizeAll (LiteralPart.shapes fragment pos parts) = parts.length := by
  induction parts generalizing pos with
  | nil => rfl
  | cons part parts ih =>
    rw [LiteralPart.shapes, Shape.sizeAll, ih, List.length_cons, Shape.named, Shape.size]
    omega

theorem length_literalParts_le {parts : List LiteralPart} (h : ∀ part ∈ parts, part.chars ≠ []) :
    parts.length ≤ (parts.flatMap LiteralPart.chars).length := by
  induction parts with
  | nil => exact Nat.le_refl 0
  | cons part parts ih =>
    obtain ⟨hpart, hparts⟩ := List.forall_mem_cons.1 h
    have hpos := List.length_pos_iff.2 hpart
    have hrest := ih hparts
    rw [List.length_cons, List.flatMap_cons, List.length_append]
    omega

theorem StringText.size_shape_le (s : StringText) (before : List Char) :
    (s.shape before).size ≤ 2 * s.literal.text.length := by
  have hparts := length_literalParts_le s.content.nonempty
  have htext : s.literal.text.length = s.content.chars.length + 2 := by
    rw [Literal.text, List.length_cons, List.length_append]
    rfl
  have hsize : (s.shape before).size = s.content.parts.length + 3 := by
    rw [shape, Literal.shape, Shape.size, Shape.sizeAll, Shape.sizeAll_append,
      sizeAll_literalParts, Shape.sizeAll, Shape.sizeAll, Shape.token, Shape.size, Shape.token,
      Shape.size]
    change 1 + (s.content.parts.length + (1 + 0)) + 1 = _
    omega
  rw [LiteralText.chars] at htext
  omega

theorem sizeAll_commaShapes (before comma : List Char) :
    Shape.sizeAll (commaShapes before comma) ≤ 2 * comma.length := by
  cases comma with
  | nil => exact Nat.le_refl 0
  | cons c comma =>
    rw [commaShapes, Shape.sizeAll, Shape.sizeAll, leafAt, Shape.size, List.length_cons]
    omega

mutual

theorem Value.size_shape_le : ∀ (v : Value) (before : List Char),
    (v.shape before).size ≤ 2 * v.chars.length
  | .string s, before => s.size_shape_le before
  | .number n, before => by
    have hpos := List.length_pos_iff.2 n.chars_ne_nil
    rw [Value.shape, Value.chars, leafAt, Shape.size]
    omega
  | .word w, before => by
    rw [Value.shape, Value.chars, leafAt, Shape.size]
    cases w <;> decide
  | .array items, before => by
    have hitems := items.sizeAll_shapes_le (before ++ ['['])
    rw [Value.shape, Value.chars, Shape.size, Shape.sizeAll, Shape.sizeAll_append, Shape.sizeAll,
      Shape.sizeAll, leafAt, Shape.size, leafAt, Shape.size, List.length_cons, List.length_append]
    change 1 + (_ + (1 + 0)) + 1 ≤ 2 * (items.chars.length + 1 + 1)
    omega
  | .object members, before => by
    have hmembers := members.sizeAll_shapes_le (before ++ ['\x7b'])
    rw [Value.shape, Value.chars, Shape.size, Shape.sizeAll, Shape.sizeAll_append, Shape.sizeAll,
      Shape.sizeAll, leafAt, Shape.size, leafAt, Shape.size, List.length_cons, List.length_append]
    change 1 + (_ + (1 + 0)) + 1 ≤ 2 * (members.chars.length + 1 + 1)
    omega

theorem Items.sizeAll_shapes_le : ∀ (items : Items) (before : List Char),
    Shape.sizeAll (items.shapes before) ≤ 2 * items.chars.length
  | .nil _, _ => Nat.zero_le _
  | .cons gap value after rest, before => by
    have hvalue := value.size_shape_le (before ++ gap.chars)
    have hcomma := sizeAll_commaShapes (behindValue (before ++ gap.chars) value after) rest.comma
    have hrest := rest.sizeAll_shapes_le
      (behindValue (before ++ gap.chars) value after ++ rest.comma)
    rw [Items.shapes, Items.chars, Shape.sizeAll, Shape.sizeAll_append, List.length_append,
      List.length_append, List.length_append, List.length_append]
    omega

theorem Members.sizeAll_shapes_le : ∀ (members : Members) (before : List Char),
    Shape.sizeAll (members.shapes before) ≤ 2 * members.chars.length
  | .nil _, _ => Nat.zero_le _
  | .cons gap name beforeColon afterColon value after rest, before => by
    have hname := name.text.size_shape_le (before ++ gap.chars)
    have hvalue := value.size_shape_le
      (beforeValue (before ++ gap.chars) name beforeColon afterColon)
    have hcomma := sizeAll_commaShapes (behindValue
      (beforeValue (before ++ gap.chars) name beforeColon afterColon) value after) rest.comma
    have hrest := rest.sizeAll_shapes_le (behindValue
      (beforeValue (before ++ gap.chars) name beforeColon afterColon) value after ++ rest.comma)
    rw [Members.shapes, Members.chars, Shape.sizeAll, Shape.sizeAll_append, memberShape,
      Shape.size, Shape.sizeAll, Shape.sizeAll, Shape.sizeAll, Shape.sizeAll, leafAt, Shape.size]
    simp only [List.length_append, List.length_cons]
    omega

end

theorem Document.size_tree_le (d : Document) : d.tree.size ≤ 2 * d.text.length + 1 := by
  have hvalue := d.value.size_shape_le d.lead
  obtain ⟨_, hsize, _⟩ := d.laid_tree
  rw [hsize, shape, Shape.size, Shape.sizeAll, Shape.sizeAll, text, List.length_append,
    List.length_append]
  omega

end Sizes
end ProjectIndex.Json
