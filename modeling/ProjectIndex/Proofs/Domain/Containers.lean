import ProjectIndex.Domain.Services
import ProjectIndex.Proofs.Domain.Elements

/-!
The services and parameters of a container are defined by the elements directly inside the right ones,
and by no others. The parent of an element stands two steps above it, as content lies between the two;
so a search for elements under a node comes to each one together with its parent.
-/
namespace ProjectIndex

open ProjectIndex.Text

namespace XmlElement

open Xml Shape

variable {t : SyntaxTree} {src : Source} {parent : Option NodeId} {i k p : NodeId} {e outer : Element}

/-- Whether a node is an element in the content of another one. -/
def Inside (t : SyntaxTree) (src : Source) (i : NodeId) (outer e : Element) : Prop :=
  ∃ c j, Shows t src j outer ∧ t.kind c = "content" ∧ t.parent? c = some j ∧
    Laid src t.node (some c) i e.shape

section Search

variable {β : Type} {F : NodeId → Option β} {f : Element → Element → Option β}

theorem filterMap_elementless (hother : ∀ i, t.kind i ≠ "element" → F i = none) {s : Shape}
    {xs : List Shape} (h : LaidAll src t.node p k (s :: xs)) (hs : Elementless s) :
    (reachedAll k (s :: xs)).filterMap F = (reachedAll (k + s.size) xs).filterMap F := by
  have hnone : (s.reached k).filterMap F = [] := by
    rw [List.filterMap_eq_nil_iff]
    exact fun i hi => hother i (h.1.kind_ne hs hi)
  rw [reachedAll]
  split
  · rw [List.filterMap_append, hnone, List.nil_append]
  · rfl

theorem filterMap_markup (hother : ∀ i, t.kind i ≠ "element" → F i = none) {ms : List Markup}
    {xs : List Shape} (h : LaidAll src t.node p k (ms.map Markup.shape ++ xs)) :
    (reachedAll k (ms.map Markup.shape ++ xs)).filterMap F =
      (reachedAll (k + sizeAll (ms.map Markup.shape)) xs).filterMap F := by
  induction ms generalizing k with
  | nil => rfl
  | cons m ms ih =>
    rw [List.map_cons, List.cons_append] at h ⊢
    rw [filterMap_elementless hother h m.elementless, ih h.2, sizeAll, Nat.add_assoc]

mutual

/-- A search under an element comes to the elements inside of it, each with its parent. -/
theorem filterMap_below (hother : ∀ i, t.kind i ≠ "element" → F i = none)
    (hinside : ∀ i outer e, Inside t src i outer e → F i = f outer e) :
    ∀ (e : Element) {parent : Option NodeId} {k : Nat}, Laid src t.node parent k e.shape →
      (reachedAll (k + 1) e.shape.children).filterMap F = e.nested.filterMap fun n => f n.1 n.2
  | .empty range tag, parent, k, h => by
    rw [Element.shape] at h ⊢
    have htag : Elementless (tag.shape "EmptyElemTag" "/>") :=
      tag.elementless_shape (by decide) (by decide)
    exact filterMap_elementless hother h.below htag
  | .bare range tag close, parent, k, h => by
    rw [Element.shape] at h ⊢
    have htag : Elementless (tag.shape "STag" ">") := tag.elementless_shape (by decide) (by decide)
    have hbelow := h.below
    exact (filterMap_elementless hother hbelow htag).trans
      (filterMap_elementless hother hbelow.2 close.elementless_shape)
  | .full range tag inside items close, parent, k, h => by
    obtain ⟨_, hkind, hparent, _, hitems⟩ := laid_content h
    have hnested := filterMap_items hother hinside items ⟨_, h⟩ hkind hparent hitems
    rw [Element.shape] at h ⊢
    have htag : Elementless (tag.shape "STag" ">") := tag.elementless_shape (by decide) (by decide)
    have hbelow := h.below
    have hnone : F (k + 1 + (tag.shape "STag" ">").size) = none :=
      hother _ (by rw [hkind]; decide)
    have hclose := filterMap_elementless hother hbelow.2.2 close.elementless_shape
    rw [Shape.children, filterMap_elementless hother hbelow htag, reachedAll_cons_of_named rfl,
      List.filterMap_append, hclose, reached, List.filterMap_cons, hnone, Element.nested]
    exact (List.append_nil _).trans hnested

theorem filterMap_items (hother : ∀ i, t.kind i ≠ "element" → F i = none)
    (hinside : ∀ i outer e, Inside t src i outer e → F i = f outer e) :
    ∀ (items : Items) {outer : Element} {j c k : Nat}, Shows t src j outer → t.kind c = "content" →
      t.parent? c = some j → LaidAll src t.node c k items.shapes →
      (reachedAll k items.shapes).filterMap F = (items.nested outer).filterMap fun n => f n.1 n.2
  | .nil, _, _, _, _, _, _, _, _ => rfl
  | .element e rest, outer, j, c, k, houter, hkind, hparent, h => by
    rw [Items.shapes] at h ⊢
    have hnamed : e.shape.isNamed = true := by rw [e.shape_eq]; rfl
    have hhere : F k = f outer e := hinside k outer e ⟨c, j, houter, hkind, hparent, h.1⟩
    have hbelow := filterMap_below hother hinside e h.1
    have hrest := filterMap_items hother hinside rest houter hkind hparent h.2
    rw [reachedAll_cons_of_named hnamed, reached_eq, List.cons_append, List.filterMap_cons, hhere,
      List.filterMap_append, hbelow, hrest, Items.nested, List.filterMap_cons, List.filterMap_append]
  | .markup m rest, outer, j, c, k, houter, hkind, hparent, h => by
    rw [Items.shapes] at h ⊢
    rw [filterMap_elementless hother h m.elementless, Items.nested]
    exact filterMap_items hother hinside rest houter hkind hparent h.2

end
end Search

theorem childNamed_kind (h : t.kind i ≠ "element") (names parents : List String) :
    (childNamed names parents).matchesNode t src i = false := by
  rw [childNamed, Pattern.matchesNode, Pattern.matchesAll, named_kind h]
  rfl

theorem childNamed_inside (hfirst : t.ParentsFirst) (h : Inside t src i outer e)
    (names parents : List String) :
    (childNamed names parents).matchesNode t src i =
      (names.contains (e.name src) && parents.contains (outer.name src)) := by
  obtain ⟨c, j, ⟨_, houter⟩, hkind, hparent, hlaid⟩ := h
  have habove : (t.ancestors i).take 2 = [c, j] := by
    rw [hfirst.ancestors_of_parent hlaid.parent?_eq, hfirst.ancestors_of_parent hparent]
    rfl
  have hcontent : (named parents).matchesNode t src c = false :=
    named_kind (by rw [hkind]; decide) parents
  rw [childNamed, Pattern.matchesNode, Pattern.matchesAll, Pattern.matchesAll, Pattern.matchesAll,
    Pattern.matchesNode, habove, List.any_cons, List.any_cons, List.any_nil, hcontent,
    named_matches houter, named_matches hlaid, Bool.false_or, Bool.or_false, Bool.and_true]

section Root

variable {d : Document} {q : NodeId}

theorem rootNamed_matches (hfirst : t.ParentsFirst) (h : Laid src t.node (some q) i e.shape)
    (name : String) :
    (rootNamed name).matchesNode t src i = (e.name src == name && t.kind q == "document") := by
  have habove : (t.ancestors i).take 1 = [q] := by
    rw [hfirst.ancestors_of_parent h.parent?_eq]
    rfl
  rw [rootNamed, Pattern.matchesNode, Pattern.matchesAll, Pattern.matchesAll, Pattern.matchesAll,
    named_matches h, Pattern.matchesNode, habove, List.any_cons, List.any_nil, Pattern.matchesNode,
    Bool.or_false, Bool.and_true, List.contains_cons, List.contains_nil, Bool.or_false]

def rootId (d : Document) : NodeId := 1 + sizeAll (d.before.map Markup.shape)

theorem laid_root (h : Laid src t.node none 0 d.shape) :
    Laid src t.node (some 0) (rootId d) d.root.shape :=
  (laidAll_append.1 h.below).2.1

theorem childNamed_root (hfirst : t.ParentsFirst) (h : Laid src t.node none 0 d.shape)
    (names parents : List String) :
    (childNamed names parents).matchesNode t src (rootId d) = false := by
  have hkind : t.kind 0 = "document" := h.kind_eq
  have habove : (t.ancestors (rootId d)).take 2 = [0] := by
    rw [hfirst.ancestors_of_parent (laid_root h).parent?_eq,
      SyntaxTree.ancestors_of_root h.parent?_eq]
    rfl
  have hdocument : (named parents).matchesNode t src 0 = false :=
    named_kind (by rw [hkind]; decide) parents
  rw [childNamed, Pattern.matchesNode, Pattern.matchesAll, Pattern.matchesAll, Pattern.matchesAll,
    Pattern.matchesNode, habove, List.any_cons, List.any_nil, hdocument, Bool.false_or,
    Bool.false_and, Bool.and_false]

theorem filterMap_document {β : Type} {F : NodeId → Option β} {f : Element → Element → Option β}
    (h : Laid src t.node none 0 d.shape) (hother : ∀ i, t.kind i ≠ "element" → F i = none)
    (hinside : ∀ i outer e, Inside t src i outer e → F i = f outer e) :
    (d.shape.reached 0).filterMap F =
      (F (rootId d)).toList ++ d.root.nested.filterMap fun n => f n.1 n.2 := by
  have hkind : t.kind 0 = "document" := h.kind_eq
  have hnone : F 0 = none := hother 0 (by rw [hkind]; decide)
  have hnamed : d.root.shape.isNamed = true := by rw [d.root.shape_eq]; rfl
  have hbelow := h.below
  have hroot := laid_root h
  have hnested := filterMap_below hother hinside d.root hroot
  have hrest := (laidAll_append.1 hbelow).2.2
  have hafter : (reachedAll (rootId d + d.root.shape.size) (d.after.map Markup.shape)).filterMap F =
      [] := by
    rw [← List.append_nil (d.after.map Markup.shape)] at hrest ⊢
    exact filterMap_markup hother hrest
  have hhere : (d.root.shape.reached (rootId d)).filterMap F =
      (F (rootId d)).toList ++ d.root.nested.filterMap fun n => f n.1 n.2 := by
    rw [reached_eq, List.filterMap_cons, hnested]
    cases F (rootId d) <;> rfl
  rw [reached_eq, List.filterMap_cons, hnone]
  dsimp only
  rw [Document.shape, Shape.children, filterMap_markup hother hbelow,
    reachedAll_cons_of_named hnamed, List.filterMap_append]
  exact (congrArg₂ (· ++ ·) hhere hafter).trans (List.append_nil _)

theorem root?_eq (hfirst : t.ParentsFirst) (hroot : t.root = 0) (hsize : t.size = d.shape.size)
    (h : Laid src t.node none 0 d.shape) (name : String) :
    root? t src name = if d.root.name src = name then some (rootId d) else none := by
  have hkind : t.kind 0 = "document" := h.kind_eq
  have hhere := rootNamed_matches hfirst (laid_root h) name
  rw [hkind, beq_self_eq_true, Bool.and_true] at hhere
  have hother : ∀ i, t.kind i ≠ "element" →
      Option.guard ((rootNamed name).matchesNode t src) i = none := by
    intro i hi
    have hno : (rootNamed name).matchesNode t src i = false := by
      rw [rootNamed, Pattern.matchesNode, Pattern.matchesAll, named_kind hi]
      rfl
    simp [Option.guard, hno]
  have hinside : ∀ i outer e, Inside t src i outer e →
      Option.guard ((rootNamed name).matchesNode t src) i = none := by
    rintro i outer e ⟨c, j, _, hcontent, _, hlaid⟩
    have hno : (rootNamed name).matchesNode t src i = false := by
      rw [rootNamed_matches hfirst hlaid, hcontent]
      exact Bool.and_false _
    simp [Option.guard, hno]
  have hfound := filterMap_document (f := fun _ _ => none) h hother hinside
  rw [root?, Pattern.findFirst?, hroot, h.descendants_eq hsize, ← List.head?_filter,
    ← List.filterMap_eq_filter, hfound, Option.guard, hhere]
  by_cases hname : d.root.name src = name <;> simp [hname]

end Root
end XmlElement

namespace Services

open XmlElement Xml Shape

variable {t : SyntaxTree} {src : Source} {parent : Option NodeId} {k : NodeId} {e : Element}

section Facts

variable (path : Path) (src : Source) (e : Element)

def serviceOf? : Option (String × Service) := do
  let id ← e.attribute? src "id"
  if id.toList.contains ' ' then none
  else
    some (id,
      { id
        className := (e.attribute? src "class").getD id
        aliasTarget := e.attribute? src "alias"
        tags := (e.elements.filter fun c => c.name src == "tag").filterMap fun c =>
          c.attribute? src "name"
        path := path.toString
        line := e.line src })

def aliasOf? : Option (String × Service) := do
  let id ← e.attribute? src "id"
  let target ← e.attribute? src "service"
  some (id,
    { id
      className := id
      aliasTarget := some target
      tags := []
      path := path.toString
      line := e.line src })

def definitionOf? : Option (String × Service) :=
  match e.name src with
  | "service" => serviceOf? path src e
  | "alias" => aliasOf? path src e
  | _ => none

def parameterOf? : Option (String × Parameter) := do
  let name ← e.attribute? src "key"
  let value :=
    if e.attribute? src "type" == some "service" then "@" ++ (e.attribute? src "id").getD ""
    else (e.attribute? src "value").getD (String.ofList (trim (e.content src)))
  some (name, { name, value, path := path.toString, line := e.line src })

/-- What the elements of the given names directly inside those of the given parents say. -/
def factsInside {α : Type} (names parents : List String) (fact? : Element → Option (String × α))
    (root : Element) : FileFacts α :=
  (root.nested.filter fun n =>
    names.contains (n.2.name src) && parents.contains (n.1.name src)).filterMap fun n => fact? n.2

/-- The facts of a document: there are none unless its root is a container. -/
def factsOf (d : Document) : FileFacts Service × FileFacts Parameter :=
  if d.root.name src = "container" then
    (factsInside src ["service", "alias"] ["container", "services"] (definitionOf? path src) d.root,
      factsInside src ["parameter"] ["container", "parameters"] (parameterOf? path src) d.root)
  else ([], [])

end Facts

theorem line_eq (h : Laid src t.node parent k e.shape) : t.line k = e.line src := by
  rw [h.line_eq, e.shape_eq]
  rfl

theorem tags_eq {is : List NodeId} {es : List Element} (h : List.Forall₂ (Shows t src) is es) :
    ((is.filter fun c => name? t src c == some "tag").filterMap fun c => attribute? t src c "name") =
      (es.filter fun c => c.name src == "tag").filterMap fun c => c.attribute? src "name" := by
  induction h with
  | nil => rfl
  | cons hhere _ ih =>
    obtain ⟨parent, hlaid⟩ := hhere
    rw [List.filter_cons, List.filter_cons, name?_eq hlaid, Option.some_beq_some]
    split
    · rw [List.filterMap_cons, List.filterMap_cons, attribute?_eq hlaid, ih]
    · exact ih

theorem service?_eq (h : Laid src t.node parent k e.shape) (path : Path) :
    service? path t src k = serviceOf? path src e := by
  simp only [service?, serviceOf?, attribute?_eq h, tags_eq (forall₂_children h), line_eq h]

theorem alias?_eq (h : Laid src t.node parent k e.shape) (path : Path) :
    alias? path t src k = aliasOf? path src e := by
  simp only [alias?, aliasOf?, attribute?_eq h, line_eq h]

theorem definition?_eq (h : Laid src t.node parent k e.shape) (path : Path) :
    definition? path t src k = definitionOf? path src e := by
  rw [definition?, definitionOf?, name?_eq h, service?_eq h, alias?_eq h]
  generalize e.name src = name
  split
  · next heq =>
    cases heq
    rfl
  · next heq =>
    cases heq
    rfl
  · next hservice halias =>
    split
    · exact absurd rfl hservice
    · exact absurd rfl halias
    · rfl

theorem parameter?_eq (h : Laid src t.node parent k e.shape) (path : Path) :
    parameter? path t src k = parameterOf? path src e := by
  simp only [parameter?, parameterOf?, parameterValue, attribute?_eq h, textContent_eq h, line_eq h]

theorem facts_eq {α : Type} {d : Document} (hfirst : t.ParentsFirst) (hsize : t.size = d.shape.size)
    (h : Laid src t.node none 0 d.shape) (names parents : List String)
    {g : NodeId → Option (String × α)} {f : Element → Option (String × α)}
    (hg : ∀ parent i e, Laid src t.node parent i e.shape → g i = f e) :
    ((childNamed names parents).findAll t src (rootId d)).filterMap g =
      factsInside src names parents f d.root := by
  have hlaid := laid_root h
  let F : NodeId → Option (String × α) := fun i =>
    if (childNamed names parents).matchesNode t src i then g i else none
  have hother : ∀ i, t.kind i ≠ "element" → F i = none := fun i hi =>
    if_neg (by rw [childNamed_kind hi]; exact Bool.false_ne_true)
  have hinside : ∀ i outer e, Inside t src i outer e → F i =
      if names.contains (e.name src) && parents.contains (outer.name src) then f e else none := by
    intro i outer e hi
    obtain ⟨c, _, _, _, _, he⟩ := id hi
    change (if (childNamed names parents).matchesNode t src i then g i else none) = _
    rw [childNamed_inside hfirst hi, hg _ i e he]
  have htop : F (rootId d) = none :=
    if_neg (by rw [childNamed_root hfirst h]; exact Bool.false_ne_true)
  have hsizes : d.root.shape.size ≤ t.size := by
    rw [hsize, Document.shape, Shape.size, sizeAll_append, sizeAll]
    omega
  have hfound := filterMap_below hother hinside d.root hlaid
  rw [Pattern.findAll, hlaid.descendants_of_le hsizes, List.filterMap_filter, reached_eq,
    factsInside, List.filterMap_filter]
  exact (List.filterMap_cons_none htop).trans hfound

theorem extract_tree (path : Path) (d : Document) (src : Source) :
    extract path (d.tree src) src = factsOf path src d := by
  obtain ⟨hroot, hsize, hlaid⟩ := d.laid_tree src
  have hfirst := hlaid.parentsFirst hsize
  have hdefinitions := facts_eq (g := definition? path (d.tree src) src)
    (f := definitionOf? path src) hfirst hsize hlaid ["service", "alias"] ["container", "services"]
    fun _ _ _ h => definition?_eq h path
  have hparameters := facts_eq (g := parameter? path (d.tree src) src) (f := parameterOf? path src)
    hfirst hsize hlaid ["parameter"] ["container", "parameters"] fun _ _ _ h => parameter?_eq h path
  rw [extract, root?_eq hfirst hroot hsize hlaid, factsOf, ← hdefinitions, ← hparameters]
  by_cases hname : d.root.name src = "container"
  · rw [if_pos hname, if_pos hname]
    rfl
  · rw [if_neg hname, if_neg hname]

/-- The services and parameters saved for a file are those of the elements directly inside the
elements that may hold them. -/
theorem index_saves_direct_children (d : Document) (src : Source) (env : Surroundings) (p : Path)
    (s : ServiceStores) :
    indexer.index env p (d.tree src) src s =
      if accepts p then s.save p (factsOf p src d) else (s, none) := by
  change (if accepts p then s.save p (extract p (d.tree src) src) else (s, none)) = _
  rw [extract_tree]

end Services
end ProjectIndex
