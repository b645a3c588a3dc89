import ProjectIndex.Domain.Literal
import ProjectIndex.Proofs.Domain.Literals
import ProjectIndex.Proofs.Grammar.Json.Document
import ProjectIndex.Proofs.Tree.Reading
import ProjectIndex.Proofs.Tree.Tiling

/-!
What is read off the nodes of a document: the texts of leaves, the name and the value of a member,
and the nodes found from some members down. Members are listed with all that stands in front of
them, so that each one has its place in the text.
-/
namespace ProjectIndex.Json

open ProjectIndex.Text Shape

variable {t : SyntaxTree} {src : Source} {parent : Option NodeId} {k : NodeId}
  {start before x : List Char} {name : MemberName} {beforeColon afterColon : Gap}

theorem text_of_leafAt {kind : String} {named : Bool}
    (h : Laid src t.node parent k (leafAt kind named before x))
    (hsrc : OccursAt src (byteLength before) x) : t.text src k = x := by
  have hslice := hsrc.slice_eq
  rw [← byteLength_append] at hslice
  exact h.text_eq.trans hslice

theorem stringLiteral_of_laid {s : StringText} (h : Laid src t.node parent k (s.shape before))
    (hsrc : OccursAt src (byteLength before) s.literal.text) (hplain : s.content.isPlain = true) :
    stringLiteral t src k = s.content.chars := by
  have hspells := Literal.spells_of_laid h hsrc
  rw [hspells.stringLiteral_eq (by decide)]
  exact LiteralText.firstPlain?_getD_eq_chars.2 (LiteralText.unmixed_of_isPlain hplain)

def valueId (k : Nat) (start : List Char) (name : MemberName) : NodeId :=
  k + 1 + (name.text.shape start).size + 1

theorem laid_member {s : Shape}
    (h : Laid src t.node parent k (memberShape start name beforeColon afterColon x s)) :
    Laid src t.node (some k) (k + 1) (name.text.shape start) ∧
      Laid src t.node (some k) (valueId k start name) s := by
  obtain ⟨hname, _, hvalue, _⟩ := h.below
  exact ⟨hname, hvalue⟩

theorem namedChildren_of_member {s : Shape} (hs : s.isNamed = true)
    (h : Laid src t.node parent k (memberShape start name beforeColon afterColon x s)) :
    t.namedChildren k = [k + 1, valueId k start name] := by
  have hname : (name.text.shape start).isNamed = true := rfl
  have hcolon : ∀ colon : List Char, (leafAt ":" false colon [':']).isNamed = false := fun _ => rfl
  rw [h.namedChildren_eq, memberShape, Shape.children, namedIds, if_pos hname, namedIds, hcolon,
    if_neg Bool.false_ne_true, namedIds, if_pos hs, namedIds]
  rfl

def NoPair (s : Shape) : Prop := Throughout (fun c => c.kind ≠ "pair") s

theorem noPair_leaf {kind : String} (h : kind ≠ "pair") (named error : Bool) (start stop : Nat) :
    NoPair (.leaf kind named error start stop) :=
  ⟨h, fun c hc => by cases hc⟩

theorem noPair_literalParts (parts : List LiteralPart) (pos : Nat) :
    ∀ c ∈ LiteralPart.shapes "string_content" pos parts, NoPair c := by
  induction parts generalizing pos with
  | nil => exact List.forall_mem_nil _
  | cons part parts ih =>
    refine List.forall_mem_cons.2 ⟨noPair_leaf ?_ true false _ _, ih _⟩
    cases part with
    | plain s => exact (by decide : "string_content" ≠ "pair")
    | escape s => exact (by decide : "escape_sequence" ≠ "pair")

theorem noPair_string (s : StringText) (before : List Char) : NoPair (s.shape before) := by
  have hquote : ∀ start stop : Nat, NoPair (.token "\"" start stop) :=
    noPair_leaf (by decide) false false
  refine ⟨(by decide : "string" ≠ "pair"), List.forall_mem_cons.2 ⟨hquote _ _, fun c hc => ?_⟩⟩
  rcases List.mem_append.1 hc with hc | hc
  · exact noPair_literalParts _ _ c hc
  · rw [List.mem_singleton.1 hc]
    exact hquote _ _

theorem reachedAll_leafAt {kind : String} {before x : List Char} {xs : List Shape} :
    reachedAll k (leafAt kind false before x :: xs) = reachedAll (k + 1) xs := by
  have hno : (leafAt kind false before x).isNamed = false := rfl
  rw [reachedAll, hno, if_neg Bool.false_ne_true]
  rfl

theorem reachedAll_commaShapes (k : Nat) (before comma : List Char) :
    reachedAll k (commaShapes before comma) = [] := by
  cases comma with
  | nil => rfl
  | cons => exact reachedAll_leafAt

theorem reached_between {kind first last : String} {before behind u v : List Char}
    {start stop : Nat} {xs : List Shape} :
    (Shape.node kind true false start stop
      (leafAt first false before u :: (xs ++ [leafAt last false behind v]))).reached k =
      k :: reachedAll (k + 1 + 1) xs := by
  rw [reached, reachedAll_leafAt, reachedAll_append, reachedAll_leafAt, reachedAll, List.append_nil]

theorem reached_member {s : Shape} (hs : s.isNamed = true) :
    (memberShape start name beforeColon afterColon x s).reached k =
      k :: ((name.text.shape start).reached (k + 1) ++ s.reached (valueId k start name)) := by
  have hname : (name.text.shape start).isNamed = true := rfl
  change k :: reachedAll (k + 1) _ = _
  rw [reachedAll_cons_of_named hname, reachedAll_leafAt, reachedAll_singleton _ hs]
  rfl

theorem reachedAll_member (s : Shape) (xs : List Shape) :
    let member := memberShape start name beforeColon afterColon x s
    reachedAll k (member :: xs) = member.reached k ++ reachedAll (k + member.size) xs := by
  intro member
  have hmember : member.isNamed = true := rfl
  exact reachedAll_cons_of_named hmember

def Value.isObject : Value → Bool
  | .object _ => true
  | _ => false

theorem Value.kind_beq_object (v : Value) (before : List Char) :
    ((v.shape before).kind == "object") = v.isObject := by
  cases v with
  | word w => cases w <;> rfl
  | _ => rfl

structure Member where
  before : List Char
  name : MemberName
  beforeColon : Gap
  afterColon : Gap
  value : Value

namespace Member

def first (m : Member) : List Char := beforeValue m.before m.name m.beforeColon m.afterColon

def chars (m : Member) : List Char :=
  m.name.text.literal.text ++
    (m.beforeColon.chars ++ (':' :: (m.afterColon.chars ++ m.value.chars)))

def shape (m : Member) : Shape :=
  memberShape m.before m.name m.beforeColon m.afterColon m.value.chars (m.value.shape m.first)

def range (m : Member) : Nat × Nat := (byteLength m.before, byteLength (m.before ++ m.chars))

def holdsObject (m : Member) : Bool := m.value.isObject

theorem first_append (m : Member) : m.first ++ m.value.chars = m.before ++ m.chars := by
  simp [first, beforeValue, chars]

theorem range_shape (m : Member) : m.shape.range = m.range := by
  rw [range, ← m.first_append]
  rfl

def StandsIn (src : Source) (m : Member) : Prop := ∃ w, src = m.before ++ (m.chars ++ w)

theorem standsIn_iff {m : Member} : m.StandsIn src ↔ ∃ w, src = m.first ++ (m.value.chars ++ w) := by
  rw [StandsIn]
  simp only [← List.append_assoc, m.first_append]

theorem StandsIn.nameText {m : Member} (h : m.StandsIn src) :
    OccursAt src (byteLength m.before) m.name.text.literal.text := by
  obtain ⟨w, hsrc⟩ := h
  exact (OccursAt.of_eq hsrc).left

end Member

def Members.list (before : List Char) : Members → List Member
  | .nil _ => []
  | .cons gap name beforeColon afterColon value after rest =>
    let m : Member := ⟨before ++ gap.chars, name, beforeColon, afterColon, value⟩
    m :: rest.list (behindValue m.first value after ++ rest.comma)

/-- The members of a value that stands behind `before`, if it is an object. -/
def Value.members (before : List Char) : Value → List Member
  | .object members => members.list (before ++ ['\x7b'])
  | _ => []

theorem Value.members_eq_nil {v : Value} (h : v.isObject ≠ true) (before : List Char) :
    v.members before = [] := by
  cases v with
  | object members => exact absurd rfl h
  | _ => rfl

theorem forall₂_reachedAll_members {R : NodeId → Member → Prop} {P : NodeId → Bool}
    {selected : Member → List Member} {p : NodeId}
    (hone : ∀ (m : Member) (k : NodeId), m.StandsIn src → Laid src t.node (some p) k m.shape →
      List.Forall₂ R ((m.shape.reached k).filter P) (selected m)) :
    ∀ (members : Members) {k : Nat} {before after : List Char},
      src = before ++ (members.chars ++ after) →
      LaidAll src t.node p k (members.shapes before) →
      List.Forall₂ R ((reachedAll k (members.shapes before)).filter P)
        ((members.list before).flatMap selected)
  | .nil gap, k, before, after, _, _ => .nil
  | .cons gap name beforeColon afterColon value afterValue rest, k, before, after, hsrc, h => by
    obtain ⟨_, hvalue, hrest⟩ := places_of_members hsrc
    obtain ⟨hmember, hbelow⟩ := h
    obtain ⟨_, hlaidRest⟩ := laidAll_append.1 hbelow
    have hhere := hone ⟨before ++ gap.chars, name, beforeColon, afterColon, value⟩ k
      (Member.standsIn_iff.2 hvalue) hmember
    have hbehind := forall₂_reachedAll_members hone rest hrest hlaidRest
    rw [Members.shapes, reachedAll_member, reachedAll_append, reachedAll_commaShapes,
      List.nil_append, List.filter_append]
    exact List.rel_append hhere hbehind

end ProjectIndex.Json
