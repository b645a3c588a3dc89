import Mathlib.Data.List.Chain
import ProjectIndex.Proofs.Tree.Reading
import ProjectIndex.Proofs.Tree.Sketch

/-!
Quoted literals. Between two quotes of the same kind stand the longest runs of plain text and the
escapes between them. The node of a literal has a child for each quote and for each of these parts.
-/
namespace ProjectIndex

open ProjectIndex.Text

inductive LiteralPart where
  | plain (chars : List Char)
  | escape (chars : List Char)
deriving DecidableEq, Repr

namespace LiteralPart

def chars : LiteralPart → List Char
  | plain chars => chars
  | escape chars => chars

def isPlain : LiteralPart → Bool
  | plain _ => true
  | escape _ => false

def plain? : LiteralPart → Option (List Char)
  | plain chars => some chars
  | escape _ => none

def kind (fragment : String) : LiteralPart → String
  | plain _ => fragment
  | escape _ => "escape_sequence"

def shapes (fragment : String) (pos : Nat) : List LiteralPart → List Shape
  | [] => []
  | part :: rest =>
    let stop := pos + byteLength part.chars
    .named (part.kind fragment) pos stop :: shapes fragment stop rest

end LiteralPart

structure LiteralText where
  parts : List LiteralPart
  nonempty : ∀ part ∈ parts, part.chars ≠ []
  /-- Plain text is not cut in two. -/
  maximal : parts.IsChain fun x y => ¬ (x.isPlain = true ∧ y.isPlain = true)

namespace LiteralText

def chars (t : LiteralText) : List Char := t.parts.flatMap LiteralPart.chars

def firstPlain? (t : LiteralText) : Option (List Char) := t.parts.findSome? LiteralPart.plain?

def isPlain (t : LiteralText) : Bool := t.parts.all LiteralPart.isPlain

/-- Whether a text has no plain text or nothing but plain text. -/
def Unmixed (t : LiteralText) : Prop :=
  (∀ part ∈ t.parts, part.isPlain = false) ∨ ∀ part ∈ t.parts, part.isPlain = true

end LiteralText

def IsQuote (c : Char) : Prop := c = '"' ∨ c = '\'' ∨ c = '\x60'

instance (c : Char) : Decidable (IsQuote c) := by unfold IsQuote; infer_instance

structure Literal where
  quote : Char
  isQuote : IsQuote quote
  content : LiteralText

namespace Literal

def text (l : Literal) : List Char := l.quote :: (l.content.chars ++ [l.quote])

def nodes (l : Literal) (fragment : String) : List (String × List Char) :=
  (String.singleton l.quote, [l.quote]) ::
    (l.content.parts.map (fun part => (part.kind fragment, part.chars)) ++
      [(String.singleton l.quote, [l.quote])])

def shape (fragment : String) (pos : Nat) (l : Literal) : Shape :=
  let first := pos + l.quote.utf8Size
  let last := first + byteLength l.content.chars
  .node "string" true false pos (pos + byteLength l.text)
    (.token (String.singleton l.quote) pos first ::
      (LiteralPart.shapes fragment first l.content.parts ++
        [.token (String.singleton l.quote) last (last + l.quote.utf8Size)]))

end Literal

/-- Whether a node is that of a literal, in a grammar with the given kind for plain text. -/
structure SyntaxTree.Spells (t : SyntaxTree) (src : Source) (i : NodeId) (fragment : String)
    (l : Literal) : Prop where
  text_eq : t.text src i = l.text
  children_eq : (t.children i).map (fun c => (t.kind c, t.text src c)) = l.nodes fragment

namespace LiteralText

variable {t : LiteralText}

theorem firstPlain?_eq_none : t.firstPlain? = none ↔ ∀ part ∈ t.parts, part.isPlain = false := by
  rw [firstPlain?, List.findSome?_eq_none_iff]
  refine forall₂_congr fun part _ => ?_
  cases part <;> simp [LiteralPart.plain?, LiteralPart.isPlain]

theorem parts_of_all_plain (h : ∀ part ∈ t.parts, part.isPlain = true) :
    t.parts = [] ∨ ∃ s, t.parts = [.plain s] := by
  have hmaximal := t.maximal
  match hparts : t.parts with
  | [] => exact .inl rfl
  | [.plain s] => exact .inr ⟨s, rfl⟩
  | [.escape s] =>
    rw [hparts] at h
    exact absurd (h _ (List.mem_cons_self ..)) (by simp [LiteralPart.isPlain])
  | x :: y :: rest =>
    rw [hparts] at h hmaximal
    have hx := h x (List.mem_cons_self ..)
    have hy := h y (List.mem_cons_of_mem _ (List.mem_cons_self ..))
    exact absurd ⟨hx, hy⟩ (List.isChain_cons_cons.1 hmaximal).1

theorem unmixed_of_isPlain (h : t.isPlain = true) : t.Unmixed := .inr (List.all_eq_true.1 h)

theorem flatMap_chars_eq_nil {parts : List LiteralPart} (hne : ∀ part ∈ parts, part.chars ≠ [])
    (h : parts.flatMap LiteralPart.chars = []) : parts = [] := by
  cases parts with
  | nil => rfl
  | cons part parts =>
    rw [List.flatMap_cons, List.append_eq_nil_iff] at h
    exact absurd h.1 (hne part (List.mem_cons_self ..))

theorem firstPlain?_getD_eq_chars : t.firstPlain?.getD t.chars = t.chars ↔ t.Unmixed := by
  constructor
  · intro h
    cases hfirst : t.firstPlain? with
    | none => exact .inl (firstPlain?_eq_none.1 hfirst)
    | some s =>
      rw [hfirst, Option.getD_some] at h
      obtain ⟨earlier, part, later, hparts, hpart, -⟩ := List.findSome?_eq_some_iff.1 hfirst
      cases part with
      | escape e => cases hpart
      | plain p =>
        obtain rfl : p = s := Option.some.inj hpart
        have hne := t.nonempty
        rw [hparts] at hne
        -- the other parts are not empty, so there are none
        have hlength := congrArg List.length h
        rw [chars, hparts, List.flatMap_append, List.flatMap_cons, List.length_append,
          List.length_append, LiteralPart.chars] at hlength
        have hearlier : earlier = [] := flatMap_chars_eq_nil
          (fun part hpart => hne part (List.mem_append_left _ hpart))
          (List.length_eq_zero_iff.1 (by omega))
        have hlater : later = [] := flatMap_chars_eq_nil
          (fun part hpart => hne part (List.mem_append_right _ (List.mem_cons_of_mem _ hpart)))
          (List.length_eq_zero_iff.1 (by omega))
        refine .inr fun part hmem => ?_
        rw [hparts, hearlier, hlater, List.nil_append, List.mem_singleton] at hmem
        rw [hmem]
        rfl
  · rintro (hnone | hall)
    · rw [firstPlain?_eq_none.2 hnone]
      rfl
    · rcases parts_of_all_plain hall with hnil | ⟨s, hone⟩
      · rw [firstPlain?, chars, hnil]
        rfl
      · rw [firstPlain?, chars, hone, List.flatMap_singleton]
        rfl

end LiteralText

section Shapes

variable {t : SyntaxTree} {src : Source} {parent : Option NodeId} {p k pos : Nat}
  {fragment : String} {parts : List LiteralPart} {l : Literal}

theorem soundAll_literalParts (fragment : String) (parts : List LiteralPart) (pos : Nat) :
    Shape.SoundAll (LiteralPart.shapes fragment pos parts) := by
  induction parts generalizing pos with
  | nil => trivial
  | cons part parts ih => exact ⟨rfl, ih _⟩

theorem Literal.sound_shape (l : Literal) (fragment : String) (pos : Nat) :
    (l.shape fragment pos).Sound :=
  ⟨rfl, rfl, Shape.soundAll_append.2 ⟨soundAll_literalParts .., rfl, trivial⟩⟩

theorem Shape.Laid.kind_text_eq {s : Shape} {x : List Char} (h : Shape.Laid src t.node parent k s)
    (hsrc : OccursAt src s.start x) (hstop : s.stop = s.start + byteLength x) :
    (t.kind k, t.text src k) = (s.kind, x) := by
  rw [h.kind_eq, h.text_eq, hstop, hsrc.slice_eq]

theorem map_literalParts (h : Shape.LaidAll src t.node p k (LiteralPart.shapes fragment pos parts))
    (hsrc : OccursAt src pos (parts.flatMap LiteralPart.chars)) :
    (Shape.ids k (LiteralPart.shapes fragment pos parts)).map
        (fun c => (t.kind c, t.text src c)) =
      parts.map fun part => (part.kind fragment, part.chars) := by
  induction parts generalizing k pos with
  | nil => rfl
  | cons part parts ih =>
    obtain ⟨hpart, hrest⟩ := h
    rw [List.flatMap_cons] at hsrc
    rw [LiteralPart.shapes, Shape.ids, List.map_cons, List.map_cons, ih hrest hsrc.right,
      hpart.kind_text_eq hsrc.left rfl]
    rfl

theorem Literal.spells_of_laid (h : Shape.Laid src t.node parent k (l.shape fragment pos))
    (hsrc : OccursAt src pos l.text) : t.Spells src k fragment l := by
  constructor
  · rw [h.text_eq]
    exact hsrc.slice_eq
  · obtain ⟨hopen, hrest⟩ := h.below
    obtain ⟨hparts, hclose, -⟩ := Shape.laidAll_append.1 hrest
    have hbehind : OccursAt src (pos + l.quote.utf8Size) (l.content.chars ++ [l.quote]) :=
      hsrc.right (x := [l.quote])
    rw [h.children_eq, Literal.shape, Shape.children, Shape.ids, List.map_cons, Shape.ids_append,
      List.map_append, map_literalParts hparts hbehind.left, Shape.ids, Shape.ids, List.map_singleton,
      hopen.kind_text_eq (hsrc.left (x := [l.quote])) rfl, hclose.kind_text_eq hbehind.right rfl]
    rfl

end Shapes
end ProjectIndex
