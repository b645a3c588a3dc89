import Mathlib.Data.List.DropRight
import ProjectIndex.Domain.XmlElement
import ProjectIndex.Proofs.Grammar.Xml.Document
import ProjectIndex.Proofs.Tree.Ancestry

/-!
What is read off the node of an XML element: its name, its attributes, the elements in it and its
text. The value of an attribute loses every quote mark at its ends and not only the two around it, so
it is read as written exactly if it has no quote marks at its ends.
-/
namespace ProjectIndex

open ProjectIndex.Text

namespace Xml

open Shape

/-- The value as it is read: without quote marks at its ends. -/
def Attribute.reading (src : Source) (a : Attribute) : String :=
  String.ofList (trimBoth XmlElement.isQuoteMark (a.written src))

def Element.attribute? (src : Source) (e : Element) (name : String) : Option String :=
  (e.tag.attributes.find? fun a => a.key src == name).map (Attribute.reading src)

def Element.tagShape (e : Element) : Shape :=
  match e with
  | .empty _ tag => tag.shape "EmptyElemTag" "/>"
  | .bare _ tag _ => tag.shape "STag" ">"
  | .full _ tag _ _ _ => tag.shape "STag" ">"

def Element.behindTag (e : Element) : List Shape :=
  match e with
  | .empty .. => []
  | .bare _ _ close => [close.shape]
  | .full _ _ inside items close =>
    [.node "content" true false inside.1 inside.2 items.shapes, close.shape]

theorem Element.shape_eq (e : Element) :
    e.shape = .node "element" true false e.range.1 e.range.2 (e.tagShape :: e.behindTag) := by
  cases e <;> rw [Element.shape] <;> rfl

theorem Element.exists_tagShape_eq (e : Element) :
    ∃ kind ∈ ["STag", "EmptyElemTag"], ∃ last, e.tagShape = e.tag.shape kind last := by
  cases e with
  | empty => exact ⟨"EmptyElemTag", by decide, "/>", rfl⟩
  | bare => exact ⟨"STag", by decide, ">", rfl⟩
  | full => exact ⟨"STag", by decide, ">", rfl⟩

end Xml

namespace XmlElement

open Xml Shape

variable {t : SyntaxTree} {src : Source} {parent : Option NodeId} {k p : NodeId}

theorem ofList_beq (x : List Char) (s : String) : (String.ofList x == s) = (x == s.toList) := by
  rw [Bool.eq_iff_iff, beq_iff_eq, beq_iff_eq]
  constructor
  · rintro rfl
    exact String.toList_ofList.symm
  · rintro rfl
    exact String.ofList_toList

section Attributes

variable {a : Attribute} {attributes : List Attribute} {name : String}

theorem attribute_children (h : Laid src t.node parent k a.shape) :
    t.childOfKind? k "Name" = some (k + 1) ∧ t.childOfKind? k "AttValue" = some (k + 3) ∧
      t.text src (k + 1) = a.name.text src ∧ t.text src (k + 3) = a.written src := by
  obtain ⟨hname, hequals, hvalue, _⟩ := h.below
  have hchildren : t.children k = [k + 1, k + 2, k + 3] := h.children_eq
  have hkind₁ : t.kind (k + 1) = "Name" := hname.kind_eq
  have hkind₂ : t.kind (k + 2) = "=" := hequals.kind_eq
  have hkind₃ : t.kind (k + 3) = "AttValue" := hvalue.kind_eq
  refine ⟨?_, ?_, hname.text_eq, hvalue.text_eq⟩
  · rw [SyntaxTree.childOfKind?, hchildren]
    simp [hkind₁]
  · rw [SyntaxTree.childOfKind?, hchildren]
    simp [hkind₁, hkind₂, hkind₃]

theorem find?_attributes (h : LaidAll src t.node p k (attributes.map Attribute.shape)) :
    (((ids k (attributes.map Attribute.shape)).find? fun i =>
        (t.childOfKind? i "Name").any fun n => t.text src n == name.toList).bind fun i =>
      (t.childOfKind? i "AttValue").bind fun v =>
        some (String.ofList (trimBoth isQuoteMark (t.text src v)))) =
      (attributes.find? fun a => a.key src == name).map (Attribute.reading src) := by
  induction attributes generalizing k with
  | nil => rfl
  | cons a attributes ih =>
    obtain ⟨hhere, hrest⟩ := h
    obtain ⟨hname, hvalue, hkey, hwritten⟩ := attribute_children hhere
    have hbeq : (t.text src (k + 1) == name.toList) = (a.key src == name) := by
      rw [hkey, Attribute.key, ofList_beq]
    rw [List.map_cons, ids, List.find?_cons, List.find?_cons, hname, Option.any_some, hbeq]
    cases a.key src == name with
    | true =>
      dsimp only
      rw [Option.bind_some, hvalue, Option.bind_some, hwritten]
      rfl
    | false => exact ih hrest

end Attributes

section Elements

variable {e : Element} {kind last : String} {tag : Tag}

theorem laid_tag (h : Laid src t.node parent k (tag.shape kind last)) :
    t.children k = (k + 1) :: (k + 2) ::
        (ids (k + 3) (tag.attributes.map Attribute.shape ++ [.token last tag.last.1 tag.last.2])) ∧
      t.kind (k + 1) = "<" ∧ t.kind (k + 2) = "Name" ∧ t.text src (k + 2) = tag.name.text src := by
  obtain ⟨hmark, hname, _⟩ := h.below
  exact ⟨h.children_eq, hmark.kind_eq, hname.kind_eq, hname.text_eq⟩

theorem laidAll_attributes (h : Laid src t.node parent k (tag.shape kind last)) :
    LaidAll src t.node k (k + 3) (tag.attributes.map Attribute.shape) := by
  obtain ⟨_, _, hrest⟩ := h.below
  exact (laidAll_append.1 hrest).1

theorem childOfKind?_tag_name (h : Laid src t.node parent k (tag.shape kind last)) :
    t.childOfKind? k "Name" = some (k + 2) := by
  obtain ⟨hchildren, hmark, hname, _⟩ := laid_tag h
  rw [SyntaxTree.childOfKind?, hchildren]
  simp [hmark, hname]

theorem namedChildren_tag (h : Laid src t.node parent k (tag.shape kind last)) :
    t.namedChildren k = (k + 2) :: ids (k + 3) (tag.attributes.map Attribute.shape) := by
  have hall : ∀ s ∈ tag.attributes.map Attribute.shape, s.isNamed = true := by
    intro s hs
    obtain ⟨a, _, rfl⟩ := List.mem_map.1 hs
    rfl
  rw [h.namedChildren_eq, Tag.shape, Shape.children, namedIds_cons_of_unnamed rfl,
    namedIds_cons_of_named rfl, namedIds_append, namedIds_eq_ids hall, namedIds_cons_of_unnamed rfl,
    namedIds, List.append_nil]
  rfl

theorem kind_attribute {attributes : List Attribute}
    (h : LaidAll src t.node p k (attributes.map Attribute.shape)) {i : NodeId}
    (hi : i ∈ ids k (attributes.map Attribute.shape)) : t.kind i = "Attribute" := by
  obtain ⟨c, hc, hlaid, _⟩ := h.of_mem_ids hi
  obtain ⟨a, _, rfl⟩ := List.mem_map.1 hc
  exact hlaid.kind_eq

theorem laid_tagShape (h : Laid src t.node parent k e.shape) :
    Laid src t.node (some k) (k + 1) e.tagShape := by
  rw [e.shape_eq] at h
  exact h.below.1

theorem startTag?_eq (h : Laid src t.node parent k e.shape) : startTag? t k = some (k + 1) := by
  obtain ⟨kind, hkind, last, htag⟩ := e.exists_tagShape_eq
  have hlaid := laid_tagShape h
  have hnamed : e.tagShape.isNamed = true := by rw [htag]; rfl
  have hchild : t.namedChild? k 0 = some (k + 1) := by
    rw [SyntaxTree.namedChild?, h.namedChildren_eq, e.shape_eq, Shape.children, namedIds,
      if_pos hnamed]
    rfl
  have hkindTag : t.kind (k + 1) = kind := by
    rw [hlaid.kind_eq, htag]
    rfl
  rw [startTag?, hchild, Option.filter_some, hkindTag, if_pos]
  simpa using hkind

theorem name?_eq (h : Laid src t.node parent k e.shape) : name? t src k = some (e.name src) := by
  obtain ⟨kind, _, last, htag⟩ := e.exists_tagShape_eq
  have hlaid := laid_tagShape h
  rw [htag] at hlaid
  obtain ⟨_, _, _, htext⟩ := laid_tag hlaid
  rw [name?, startTag?_eq h, Option.bind_some, childOfKind?_tag_name hlaid, Option.map_some,
    textString, htext]
  rfl

theorem attribute?_eq (h : Laid src t.node parent k e.shape) (name : String) :
    attribute? t src k name = e.attribute? src name := by
  obtain ⟨kind, _, last, htag⟩ := e.exists_tagShape_eq
  have hlaid := laid_tagShape h
  rw [htag] at hlaid
  have hattributes := laidAll_attributes hlaid
  obtain ⟨_, _, hname, _⟩ := laid_tag hlaid
  have hfilter : (t.namedChildren (k + 1)).filter (fun n => t.kind n == "Attribute") =
      ids (k + 1 + 3) (e.tag.attributes.map Attribute.shape) := by
    rw [namedChildren_tag hlaid, List.filter_cons_of_neg (by simp [hname]), List.filter_eq_self]
    intro i hi
    rw [kind_attribute hattributes hi]
    rfl
  rw [attribute?, startTag?_eq h]
  simp only [Option.bind_eq_bind, Option.bind_some]
  rw [hfilter]
  exact find?_attributes hattributes

theorem kind_tagShape (h : Laid src t.node parent k e.shape) :
    t.kind (k + 1) = "STag" ∨ t.kind (k + 1) = "EmptyElemTag" := by
  obtain ⟨kind, hkind, last, htag⟩ := e.exists_tagShape_eq
  have hkindTag : t.kind (k + 1) = kind := by
    rw [(laid_tagShape h).kind_eq, htag]
    rfl
  rw [hkindTag]
  simpa using hkind

theorem matchesAny_text (names : List String) (i : NodeId) :
    Pattern.matchesAny t src (names.map Pattern.text) i =
      names.any fun s => t.text src i == s.toList := by
  induction names with
  | nil =>
    rw [List.map_nil, Pattern.matchesAny]
    rfl
  | cons s names ih =>
    rw [List.map_cons, Pattern.matchesAny, Pattern.matchesNode, ih, List.any_cons]

theorem any_name_tag (h : Laid src t.node parent k (tag.shape kind last)) (names : List String) :
    (t.namedChildren k).any ((Pattern.all [.kind "Name", .anyText names]).matchesNode t src) =
      names.contains (String.ofList (tag.name.text src)) := by
  obtain ⟨_, _, hname, htext⟩ := laid_tag h
  have hmatches : ∀ i, (Pattern.all [.kind "Name", .anyText names]).matchesNode t src i =
      (t.kind i == "Name" && names.any fun s => t.text src i == s.toList) := by
    intro i
    simp only [Pattern.matchesNode, Pattern.matchesAll, Pattern.anyText, matchesAny_text,
      Bool.and_true]
  have hattributes : (ids (k + 3) (tag.attributes.map Attribute.shape)).any
      ((Pattern.all [.kind "Name", .anyText names]).matchesNode t src) = false := by
    rw [List.any_eq_false]
    intro i hi
    rw [hmatches, kind_attribute (laidAll_attributes h) hi]
    exact Bool.false_ne_true
  have hnames : (names.any fun s => tag.name.text src == s.toList) =
      names.contains (String.ofList (tag.name.text src)) := by
    rw [List.contains_eq_any_beq]
    simp only [ofList_beq]
  rw [namedChildren_tag h, List.any_cons, hattributes, Bool.or_false, hmatches, hname, htext, hnames]
  rfl

theorem named_kind (h : t.kind k ≠ "element") (names : List String) :
    (named names).matchesNode t src k = false := by
  rw [named, Pattern.matchesNode, Pattern.matchesAll, Pattern.matchesNode, beq_false_of_ne h]
  rfl

theorem kind_behindTag (h : Laid src t.node parent k e.shape) {i : NodeId}
    (hi : i ∈ namedIds (k + 1 + e.tagShape.size) e.behindTag) :
    t.kind i = "content" ∨ t.kind i = "ETag" := by
  rw [e.shape_eq] at h
  obtain ⟨_, hbehind⟩ := h.below
  rw [← hbehind.filter_ids] at hi
  obtain ⟨c, hc, hlaid, _⟩ := hbehind.of_mem_ids (List.mem_of_mem_filter hi)
  rw [hlaid.kind_eq]
  cases e with
  | empty => cases hc
  | bare =>
    rw [List.mem_singleton.1 hc]
    exact .inr rfl
  | full =>
    rcases List.mem_cons.1 hc with rfl | hc
    · exact .inl rfl
    · rw [List.mem_singleton.1 hc]
      exact .inr rfl

theorem named_matches (h : Laid src t.node parent k e.shape) (names : List String) :
    (named names).matchesNode t src k = names.contains (e.name src) := by
  obtain ⟨kind, _, last, htag⟩ := e.exists_tagShape_eq
  have hlaid := laid_tagShape h
  have hkindTag := kind_tagShape h
  have hnamed : e.tagShape.isNamed = true := by rw [htag]; rfl
  have hkind : t.kind k = "element" := by rw [h.kind_eq, e.shape_eq]; rfl
  have hchildren : t.namedChildren k =
      (k + 1) :: namedIds (k + 1 + e.tagShape.size) e.behindTag := by
    rw [h.namedChildren_eq, e.shape_eq, Shape.children, namedIds_cons_of_named hnamed]
  rw [htag] at hlaid
  have hname := any_name_tag hlaid names
  -- only the first tag has the name: behind it there are content and an end tag
  have hmatches : ∀ i, (Pattern.all [.anyKind ["STag", "EmptyElemTag"],
      .hasChild (.all [.kind "Name", .anyText names])]).matchesNode t src i =
      ((t.kind i == "STag" || t.kind i == "EmptyElemTag") && (t.namedChildren i).any
        ((Pattern.all [.kind "Name", .anyText names]).matchesNode t src)) := by
    intro i
    rw [Pattern.matchesNode, Pattern.matchesAll, Pattern.matchesAll, Pattern.matchesAll,
      Pattern.matchesNode, Pattern.matchesNode, List.any_cons, List.any_cons, List.any_nil,
      Bool.or_false, Bool.and_true]
  have htagMatches : (t.kind (k + 1) == "STag" || t.kind (k + 1) == "EmptyElemTag") = true := by
    simpa using hkindTag
  have hbehind : (namedIds (k + 1 + e.tagShape.size) e.behindTag).any
      ((Pattern.all [.anyKind ["STag", "EmptyElemTag"],
        .hasChild (.all [.kind "Name", .anyText names])]).matchesNode t src) = false := by
    rw [List.any_eq_false]
    intro i hi
    rw [hmatches]
    rcases kind_behindTag h hi with hother | hother <;> simp [hother]
  rw [named, Pattern.matchesNode, Pattern.matchesAll, Pattern.matchesAll, Pattern.matchesAll,
    Pattern.matchesNode, Pattern.matchesNode, hkind, hchildren, List.any_cons, hbehind, hmatches,
    htagMatches, hname]
  simp [Element.name]

theorem laid_content {range inside : Range} {items : Items} {close : EndTag}
    (h : Laid src t.node parent k (Element.full range tag inside items close).shape) :
    let c := k + 1 + (tag.shape "STag" ">").size
    t.childOfKind? k "content" = some c ∧ t.kind c = "content" ∧ t.parent? c = some k ∧
      t.text src c = inside.text src ∧ LaidAll src t.node c (c + 1) items.shapes := by
  intro c
  have htag := kind_tagShape h
  rw [Element.shape] at h
  obtain ⟨_, hcontent, _⟩ := h.below
  have hkind : t.kind c = "content" := hcontent.kind_eq
  have hchildren : ∃ rest, t.children k = (k + 1) :: c :: rest := ⟨_, h.children_eq⟩
  obtain ⟨rest, hchildren⟩ := hchildren
  refine ⟨?_, hkind, hcontent.parent?_eq, hcontent.text_eq, hcontent.below⟩
  rw [SyntaxTree.childOfKind?, hchildren]
  rcases htag with htag | htag <;> simp [htag, hkind]

theorem childOfKind?_content_eq_none (h : Laid src t.node parent k e.shape)
    (hnone : ∀ range tag inside items close, e ≠ .full range tag inside items close) :
    t.childOfKind? k "content" = none := by
  have htag := kind_tagShape h
  cases e with
  | empty range tag =>
    rw [Element.shape] at h
    have hchildren : t.children k = [k + 1] := h.children_eq
    rw [SyntaxTree.childOfKind?, hchildren]
    rcases htag with htag | htag <;> simp [htag]
  | bare range tag close =>
    rw [Element.shape] at h
    obtain ⟨_, hclose, _⟩ := h.below
    have hkind : t.kind (k + 1 + (tag.shape "STag" ">").size) = "ETag" := hclose.kind_eq
    have hchildren : t.children k = [k + 1, k + 1 + (tag.shape "STag" ">").size] := h.children_eq
    rw [SyntaxTree.childOfKind?, hchildren]
    rcases htag with htag | htag <;> simp [htag, hkind]
  | full range tag inside items close => exact absurd rfl (hnone range tag inside items close)

theorem textContent_eq (h : Laid src t.node parent k e.shape) :
    textContent t src k = String.ofList (trim (e.content src)) := by
  cases e with
  | full range tag inside items close =>
    obtain ⟨hfound, _, _, htext, _⟩ := laid_content h
    rw [textContent, hfound]
    exact congrArg (fun x => String.ofList (trim x)) htext
  | _ =>
    rw [textContent, childOfKind?_content_eq_none h (by nofun)]
    rfl

def Shows (t : SyntaxTree) (src : Source) (i : NodeId) (e : Element) : Prop :=
  ∃ parent, Laid src t.node parent i e.shape

theorem forall₂_items : ∀ (items : Items) {k : Nat}, LaidAll src t.node p k items.shapes →
    List.Forall₂ (Shows t src) ((namedIds k items.shapes).filter fun n => t.kind n == "element")
      items.elements
  | .nil, _, _ => .nil
  | .element e rest, k, h => by
    rw [Items.shapes] at h ⊢
    obtain ⟨hhere, hrest⟩ := h
    have hkind : t.kind k = "element" := by rw [hhere.kind_eq, e.shape_eq]; rfl
    have hnamed : e.shape.isNamed = true := by rw [e.shape_eq]; rfl
    rw [namedIds_cons_of_named hnamed, List.filter_cons_of_pos (by simpa using hkind)]
    exact .cons ⟨_, hhere⟩ (forall₂_items rest hrest)
  | .markup m rest, k, h => by
    rw [Items.shapes] at h ⊢
    obtain ⟨hhere, hrest⟩ := h
    have hkind : t.kind k ≠ "element" := by rw [hhere.kind_eq]; exact m.elementless.here
    have hbehind := forall₂_items rest hrest
    rw [namedIds]
    split
    · rw [List.filter_cons_of_neg (by simpa using hkind)]
      exact hbehind
    · exact hbehind

theorem forall₂_children (h : Laid src t.node parent k e.shape) :
    List.Forall₂ (Shows t src) (children t k) e.elements := by
  cases e with
  | full range tag inside items close =>
    obtain ⟨hfound, _, _, _, hitems⟩ := laid_content h
    have hchildren : t.namedChildren (k + 1 + (tag.shape "STag" ">").size) =
        namedIds (k + 1 + (tag.shape "STag" ">").size + 1) items.shapes := by
      rw [Element.shape] at h
      exact h.below.2.1.namedChildren_eq
    rw [children, hfound]
    dsimp only
    rw [hchildren]
    exact forall₂_items items hitems
  | _ =>
    rw [children, childOfKind?_content_eq_none h (by nofun)]
    exact .nil

end Elements

section Quotes

variable {mark : Char → Bool} {q : Char} {v : List Char}

theorem trimBoth_eq_self :
    trimBoth mark v = v ↔ (∀ c ∈ v.head?, mark c = false) ∧ ∀ c ∈ v.getLast?, mark c = false := by
  have hstart : trimStart mark v = v ↔ ∀ c ∈ v.head?, mark c = false := by
    cases v with
    | nil => simp [trimStart]
    | cons c v => simp [trimStart, List.dropWhile_eq_self_iff]
  have hend : trimEnd mark v = v ↔ ∀ c ∈ v.getLast?, mark c = false := by
    change v.rdropWhile mark = v ↔ _
    rw [List.rdropWhile_eq_self_iff]
    cases v with
    | nil => simp
    | cons c v => simp [List.getLast?_eq_some_getLast (List.cons_ne_nil c v)]
  rw [← hstart, ← hend]
  constructor
  · intro h
    -- a trimmed text is no longer than the text, so neither end has lost anything
    have hsame : trimStart mark v = v := by
      have hsuffix : trimStart mark v <:+ v := List.dropWhile_suffix mark
      have hprefix : trimBoth mark v <+: trimStart mark v := List.rdropWhile_prefix mark _
      have hlength := hprefix.length_le
      rw [h] at hlength
      exact hsuffix.eq_of_length_le hlength
    exact ⟨hsame, by rwa [trimBoth, hsame] at h⟩
  · rintro ⟨hs, he⟩
    rw [trimBoth, hs, he]

theorem trimBoth_between (hq : mark q = true) (v : List Char) :
    trimBoth mark (q :: (v ++ [q])) = trimBoth mark v := by
  have hconcat : ∀ u, trimEnd mark (u ++ [q]) = trimEnd mark u := by
    intro u
    change (u ++ [q]).rdropWhile mark = u.rdropWhile mark
    rw [List.rdropWhile_concat, if_pos hq]
  rw [trimBoth, trimBoth, trimStart, trimStart, List.dropWhile_cons_of_pos hq, List.dropWhile_append]
  split
  · next hempty =>
    rw [List.isEmpty_iff.1 hempty, List.dropWhile_cons_of_pos hq]
    rfl
  · exact hconcat _

variable {t : SyntaxTree} {src : Source} {parent : Option NodeId} {k : NodeId} {e : Element}

theorem attribute?_eq_none_iff (name : String) :
    e.attribute? src name = none ↔ ∀ a ∈ e.tag.attributes, a.key src ≠ name := by
  rw [Element.attribute?, Option.map_eq_none_iff, List.find?_eq_none]
  simp

/-- An attribute is there for every name in a tag, and for no other one. Its value, written between two
quotes, is read without the quote marks at its own ends, and so as it stands exactly if it has none
there. -/
theorem attribute?_strips_every_end_quote (h : Laid src t.node parent k e.shape) (name : String) :
    (attribute? t src k name = none ↔ ∀ a ∈ e.tag.attributes, a.key src ≠ name) ∧
      ∀ a ∈ e.tag.attributes.find? (fun a => a.key src == name), ∀ q v,
        isQuoteMark q = true → a.written src = q :: (v ++ [q]) →
          attribute? t src k name = some (String.ofList (trimBoth isQuoteMark v)) ∧
            (attribute? t src k name = some (String.ofList v) ↔
              (∀ c ∈ v.head?, isQuoteMark c = false) ∧ ∀ c ∈ v.getLast?, isQuoteMark c = false) := by
  rw [attribute?_eq h]
  refine ⟨attribute?_eq_none_iff name, fun a ha q v hq hwritten => ?_⟩
  have hread : e.attribute? src name = some (String.ofList (trimBoth isQuoteMark v)) := by
    rw [Element.attribute?, Option.mem_def.1 ha, Option.map_some, Attribute.reading, hwritten,
      trimBoth_between hq]
  refine ⟨hread, ?_⟩
  rw [hread, Option.some_inj, String.ofList_inj, trimBoth_eq_self]

def quoteMark (kind : String) (start : Nat) (h : kind ≠ "element") : Markup :=
  ⟨.token kind start (start + 1), rfl, elementless_leaf h false false _ _⟩

def idAttribute : Attribute :=
  ⟨(9, 17), (9, 11), (11, 12), (12, 17),
    [quoteMark "\"" 12 (by decide), quoteMark "\"" 16 (by decide)]⟩

def classAttribute : Attribute :=
  ⟨(18, 27), (18, 23), (23, 24), (24, 27),
    [quoteMark "'" 24 (by decide), quoteMark "'" 26 (by decide)]⟩

/-- An id in quotes of both kinds, and a class in quotes of one kind. -/
def quotedId : Document :=
  ⟨(0, 29), [], .empty (0, 29) ⟨(0, 29), (0, 1), (1, 8), [idAttribute, classAttribute], (27, 29)⟩, []⟩

def quotedIdText : Source := "<service id=\"'a'\" class='b'/>".toList

theorem laid_quotedId :
    Laid quotedIdText (Xml.parse quotedIdText).node (some 0) 1 quotedId.root.shape := by
  have htree : Xml.parse quotedIdText = quotedId.tree quotedIdText := by decide +kernel
  rw [htree]
  exact (quotedId.laid_tree quotedIdText).2.2.below.1

theorem attribute?_strips_every_end_quote_quotedId :
    let t := Xml.parse quotedIdText
    Laid quotedIdText t.node (some 0) 1 quotedId.root.shape ∧
      attribute? t quotedIdText 1 "id" = some "a" ∧ attribute? t quotedIdText 1 "class" = some "b" ∧
      attribute? t quotedIdText 1 "alias" = none := by
  intro t
  have h := laid_quotedId
  have hid : attribute? t quotedIdText 1 "id" = some "a" :=
    ((attribute?_strips_every_end_quote h "id").2 idAttribute (Option.mem_def.2 rfl) '"'
      "'a'".toList (by decide) (by decide +kernel)).1
  have hclass : attribute? t quotedIdText 1 "class" = some "b" :=
    ((attribute?_strips_every_end_quote h "class").2 classAttribute (Option.mem_def.2 rfl) '\''
      "b".toList (by decide) (by decide +kernel)).1
  have halias : attribute? t quotedIdText 1 "alias" = none :=
    (attribute?_strips_every_end_quote h "alias").1.2 (by decide +kernel)
  exact ⟨h, hid, hclass, halias⟩

/-- A value that begins and ends with quotes of the other kind loses these too. -/
theorem attribute_loses_inner_quotes :
    let t := Xml.parse quotedIdText
    let v := "'a'".toList
    Laid quotedIdText t.node (some 0) 1 quotedId.root.shape ∧
      quotedId.root.tag.attributes.find? (fun a => a.key quotedIdText == "id") = some idAttribute ∧
      idAttribute.written quotedIdText = '"' :: (v ++ ['"']) ∧ '"' ∉ v ∧ '<' ∉ v ∧
      attribute? t quotedIdText 1 "id" = some "a" ∧
      attribute? t quotedIdText 1 "id" ≠ some (String.ofList v) := by
  intro t v
  have hread : attribute? t quotedIdText 1 "id" = some "a" := by decide +kernel
  refine ⟨laid_quotedId, rfl, by decide +kernel, by decide, by decide, hread, ?_⟩
  rw [hread]
  decide

end Quotes
end XmlElement
end ProjectIndex
