import Mathlib.Algebra.Group.Nat.Defs
import ProjectIndex.Domain.Snippets
import ProjectIndex.Proofs.Grammar.Json.Nodes
import ProjectIndex.Proofs.Grammar.Json.Reading
import ProjectIndex.Proofs.Tree.Ancestry
import ProjectIndex.Proofs.Tree.Tiling

/-!
The snippets of a JSON document are its scalar members outside of arrays, each under the names on
the way down to it. They are looked for among all pairs of the tree: a pair is kept if no object is
right below it and no array above it, and its key is put together on the way up.
-/
namespace ProjectIndex

open ProjectIndex.Text

namespace Json

structure Leaf where
  names : List (List Char)
  text : List Char
  line : Nat
deriving DecidableEq, Repr

def Value.scalar? : Value → Option (List Char)
  | .string s => some s.content.chars
  | .number n => some n.chars
  | .word w => some w.chars
  | .array _ => none
  | .object _ => none

mutual

/-- The scalar members of an object and of the objects in it, in document order. `names` lead down to
the value, and `before` is the text in front of it. -/
def Value.leaves (names : List (List Char)) (before : List Char) : Value → List Leaf
  | .string _ => []
  | .number _ => []
  | .word _ => []
  | .array _ => []
  | .object members => members.leaves names (before ++ ['\x7b'])

def Members.leaves (names : List (List Char)) (before : List Char) : Members → List Leaf
  | .nil _ => []
  | .cons gap name beforeColon afterColon value after rest =>
    let start := before ++ gap.chars
    let first := beforeValue start name beforeColon afterColon
    let here := names ++ [name.chars]
    (value.scalar?.map fun text => ⟨here, text, start.count '\n' + 1⟩).toList ++
      (value.leaves here first ++ rest.leaves names (behindValue first value after ++ rest.comma))

end

def Document.leaves (d : Document) : List Leaf := d.value.leaves [] d.lead

mutual

def Value.escapeFree : Value → Bool
  | .string s => s.content.isPlain
  | .number _ => true
  | .word _ => true
  | .array items => items.escapeFree
  | .object members => members.escapeFree

def Items.escapeFree : Items → Bool
  | .nil _ => true
  | .cons _ value _ rest => value.escapeFree && rest.escapeFree

def Members.escapeFree : Members → Bool
  | .nil _ => true
  | .cons _ _ _ _ value _ rest => value.escapeFree && rest.escapeFree

end

end Json

namespace Snippets

open Json Shape

def ofLeaf (p : Path) (l : Leaf) : String × Snippet :=
  let key := String.ofList (joinWith ['.'] l.names)
  (key, ⟨key, String.ofList l.text, p.toString, l.line⟩)

def flatten (p : Path) (d : Document) : FileFacts Snippet := d.leaves.map (ofLeaf p)

variable {t : SyntaxTree} {src : Source} {p : Path} {i k q : NodeId}

def fact? (t : SyntaxTree) (src : Source) (p : Path) (i : NodeId) : Option (String × Snippet) :=
  if entry.matchesNode t src i then snippet? t src p i else none

theorem extract_eq (t : SyntaxTree) (src : Source) (p : Path) :
    extract t src p = (t.descendants t.root).filterMap (fact? t src p) := by
  rw [extract, Pattern.findAll, List.filterMap_filter]
  rfl

theorem entry_matches (t : SyntaxTree) (src : Source) (i : NodeId) :
    entry.matchesNode t src i = (t.kind i == "pair" &&
      (!(t.namedChildren i).any (fun c => t.kind c == "object") &&
        !((t.ancestors i).take 18446744073709551615).any fun a => t.kind a == "array")) := by
  rw [entry, Pattern.matchesNode, Pattern.matchesAll, Pattern.matchesAll, Pattern.matchesAll,
    Pattern.matchesAll, Bool.and_true]
  rfl

theorem fact?_of_kind (h : t.kind i ≠ "pair") : fact? t src p i = none := by
  have hno : entry.matchesNode t src i = false := by
    rw [entry_matches, beq_false_of_ne h]
    rfl
  rw [fact?, hno]
  rfl

theorem fact?_below_array (hsize : t.size ≤ 18446744073709551615) (hk : t.kind k = "array")
    (hi : k ∈ t.ancestors i) : fact? t src p i = none := by
  have hlength := t.length_ancestorsUpTo_le t.size i
  have htake : (t.ancestors i).take 18446744073709551615 = t.ancestors i :=
    List.take_of_length_le (Nat.le_trans hlength hsize)
  have harray : (t.ancestors i).any (fun a => t.kind a == "array") = true :=
    List.any_eq_true.2 ⟨k, hi, beq_iff_eq.2 hk⟩
  have hno : entry.matchesNode t src i = false := by
    rw [entry_matches, htake, harray, Bool.not_true, Bool.and_false, Bool.and_false]
  rw [fact?, hno]
  rfl

/-- What the nodes above a member say: none of them is an array, and the pairs among them have the
given names, from the outermost on. -/
structure Around (t : SyntaxTree) (src : Source) (above : List NodeId) (names : List (List Char)) :
    Prop where
  noArray : ∀ a ∈ above, t.kind a ≠ "array"
  names_eq : (above.filter fun i => t.kind i == "pair").mapM (memberName? t src) =
    some names.reverse

section Around

variable {above : List NodeId} {names : List (List Char)} {name : List Char}

theorem Around.node (h : Around t src above names) (harray : t.kind k ≠ "array")
    (hpair : t.kind k ≠ "pair") : Around t src (k :: above) names := by
  constructor
  · exact List.forall_mem_cons.2 ⟨harray, h.noArray⟩
  · rw [List.filter_cons_of_neg (by simpa using hpair)]
    exact h.names_eq

theorem Around.pair (h : Around t src above names) (hkind : t.kind k = "pair")
    (hname : memberName? t src k = some name) : Around t src (k :: above) (names ++ [name]) := by
  constructor
  · refine List.forall_mem_cons.2 ⟨?_, h.noArray⟩
    rw [hkind]
    decide
  · rw [List.filter_cons_of_pos (by simpa using hkind), List.mapM_cons, hname, h.names_eq,
      List.reverse_append]
    rfl

theorem Around.dottedKey?_eq (h : Around t src (k :: t.ancestors k) names) :
    dottedKey? t src k = some (joinWith ['.'] names) := by
  rw [dottedKey?, h.names_eq, Option.map_some, List.reverse_reverse]

end Around

section Reading

variable {parent : Option NodeId} {before start x : List Char} {name : MemberName}
  {beforeColon afterColon : Gap} {value : Value} {names : List (List Char)} {line : Nat}

theorem scalarText?_of_laid (h : Laid src t.node parent k (value.shape before))
    (hsrc : OccursAt src (byteLength before) value.chars) (hfree : value.escapeFree = true) :
    scalarText? t src k = value.scalar?.map String.ofList := by
  have hkind := h.kind_eq
  cases value with
  | string s =>
    have hkind : t.kind k = "string" := hkind
    have hread : stringLiteral t src k = s.content.chars := by
      rw [Value.shape] at h
      rw [Value.chars] at hsrc
      exact stringLiteral_of_laid h hsrc hfree
    rw [scalarText?, hkind]
    exact congrArg (fun s => some (String.ofList s)) hread
  | number n =>
    have hkind : t.kind k = "number" := hkind
    have htext : t.text src k = n.chars := by
      rw [Value.shape] at h
      exact text_of_leafAt h hsrc
    rw [scalarText?, hkind]
    exact congrArg (fun s => some (String.ofList s)) htext
  | word w =>
    have hkind : t.kind k = w.kind := hkind
    have htext : t.text src k = w.chars := by
      rw [Value.shape] at h
      exact text_of_leafAt h hsrc
    rw [scalarText?, hkind]
    cases w <;> exact congrArg (fun s => some (String.ofList s)) htext
  | array items =>
    have hkind : t.kind k = "array" := hkind
    rw [scalarText?, hkind]
    rfl
  | object members =>
    have hkind : t.kind k = "object" := hkind
    rw [scalarText?, hkind]
    rfl

theorem memberName?_of_laid {s : Shape} (hs : s.isNamed = true)
    (h : Laid src t.node parent k (memberShape start name beforeColon afterColon x s))
    (hsrc : OccursAt src (byteLength start) name.text.literal.text) :
    memberName? t src k = some name.chars := by
  obtain ⟨hlaid, _⟩ := laid_member h
  have hkind : t.kind (k + 1) = "string" := hlaid.kind_eq
  have hread := stringLiteral_of_laid hlaid hsrc name.isPlain_text
  have hchild : t.namedChild? k 0 = some (k + 1) := by
    rw [SyntaxTree.namedChild?, namedChildren_of_member hs h]
    rfl
  rw [memberName?, hchild, Option.filter_some, hkind, if_pos (beq_self_eq_true _), Option.map_some,
    hread, name.chars_text]

/-- A member gives a fact exactly if its value is a scalar. -/
theorem fact?_of_member (hfirst : t.ParentsFirst)
    (h : Laid src t.node (some q) k
      (memberShape start name beforeColon afterColon value.chars (value.shape before)))
    (haround : Around t src (q :: t.ancestors q) names)
    (hname : OccursAt src (byteLength start) name.text.literal.text)
    (hvalue : OccursAt src (byteLength before) value.chars) (hfree : value.escapeFree = true)
    (hline : (pointOf src (byteLength start)).line = line) :
    fact? t src p k =
      value.scalar?.map fun text => ofLeaf p ⟨names ++ [name.chars], text, line⟩ := by
  have hnamed := value.isNamed_shape before
  have hchildren := namedChildren_of_member hnamed h
  obtain ⟨hlaidName, hlaid⟩ := laid_member h
  have hkind : t.kind k = "pair" := h.kind_eq
  have habove : t.ancestors k = q :: t.ancestors q := hfirst.ancestors_of_parent h.parent?_eq
  have hkey : dottedKey? t src k = some (joinWith ['.'] (names ++ [name.chars])) := by
    rw [← habove] at haround
    exact (haround.pair hkind (memberName?_of_laid hnamed h hname)).dottedKey?_eq
  have hscalar := scalarText?_of_laid hlaid hvalue hfree
  have hsnippet : snippet? t src p k =
      value.scalar?.map fun text => ofLeaf p ⟨names ++ [name.chars], text, line⟩ := by
    have hchild : t.namedChild? k 1 = some (valueId k start name) := by
      rw [SyntaxTree.namedChild?, hchildren]
      rfl
    have hlineK : t.line k = line := h.line_eq.trans hline
    rw [snippet?, hchild]
    simp only [Option.bind_eq_bind, Option.bind_some]
    rw [hscalar, hkey, hlineK]
    cases value.scalar? with
    | none => rfl
    | some text => rfl
  rw [fact?]
  split
  · exact hsnippet
  · next hno =>
    -- only an object right below the pair is in the way
    have hobject : t.kind (valueId k start name) = "object" := by
      have hstring : t.kind (k + 1) = "string" := hlaidName.kind_eq
      have harray : ((t.ancestors k).take 18446744073709551615).any
          (fun a => t.kind a == "array") = false := by
        rw [habove, List.any_eq_false]
        exact fun a ha => by simpa using haround.noArray a (List.mem_of_mem_take ha)
      rw [entry_matches, hkind, harray, hchildren] at hno
      simpa [hstring] using hno
    have hnone : scalarText? t src (valueId k start name) = none := by
      rw [scalarText?, hobject]
      rfl
    rw [hscalar, Option.map_eq_none_iff] at hnone
    rw [hnone]
    rfl

end Reading

section Search

variable {before after : List Char} {names : List (List Char)}

theorem filterMap_fact?_of_noPair {s : Shape} {parent : Option NodeId}
    (h : Laid src t.node parent k s) (hs : NoPair s) :
    (s.reached k).filterMap (fact? t src p) = [] := by
  rw [List.filterMap_eq_nil_iff]
  intro i hi
  exact fact?_of_kind (h.kind_ne hs hi)

theorem filterMap_fact?_array {items : Items} {parent : Option NodeId}
    (hsize : t.size ≤ 18446744073709551615) (hfirst : t.ParentsFirst)
    (h : Laid src t.node parent k (Value.shape before (.array items))) :
    ((Value.shape before (.array items)).reached k).filterMap (fact? t src p) = [] := by
  have hkind : t.kind k = "array" := h.kind_eq
  rw [List.filterMap_eq_nil_iff]
  intro i hi
  rcases Laid.suffix_ancestors hfirst h hi with rfl | hsuffix
  · refine fact?_of_kind ?_
    rw [hkind]
    decide
  · exact fact?_below_array hsize hkind (hsuffix.subset (List.mem_cons_self ..))

mutual

theorem facts_value (hsize : t.size ≤ 18446744073709551615) (hfirst : t.ParentsFirst) :
    ∀ (v : Value) {q k : Nat} {before after : List Char} {names : List (List Char)},
      v.escapeFree = true → src = before ++ (v.chars ++ after) →
      Laid src t.node (some q) k (v.shape before) → Around t src (q :: t.ancestors q) names →
      ((v.shape before).reached k).filterMap (fact? t src p) =
        (v.leaves names before).map (ofLeaf p)
  | .string s, q, k, before, after, names, _, _, h, _ => by
    rw [Value.shape] at h ⊢
    exact filterMap_fact?_of_noPair h (noPair_string s before)
  | .number n, q, k, before, after, names, _, _, h, _ => by
    rw [Value.shape] at h ⊢
    exact filterMap_fact?_of_noPair h (noPair_leaf (by decide) true false _ _)
  | .word w, q, k, before, after, names, _, _, h, _ => by
    rw [Value.shape] at h ⊢
    refine filterMap_fact?_of_noPair h (noPair_leaf ?_ true false _ _)
    cases w <;> decide
  | .array items, q, k, before, after, names, _, _, h, _ => filterMap_fact?_array hsize hfirst h
  | .object members, q, k, before, after, names, hfree, hsrc, h, haround => by
    have hkind : t.kind k = "object" := h.kind_eq
    have habove : t.ancestors k = q :: t.ancestors q := hfirst.ancestors_of_parent h.parent?_eq
    have hnone : fact? t src p k = none := fact?_of_kind (by rw [hkind]; decide)
    -- The object itself adds no name to those of the members around it.
    have hinside : Around t src (k :: t.ancestors k) names := by
      rw [habove]
      exact haround.node (by rw [hkind]; decide) (by rw [hkind]; decide)
    have hsplit : src = (before ++ ['\x7b']) ++ (members.chars ++ '\x7d' :: after) := by
      rw [hsrc, Value.chars]
      simp
    rw [Value.shape] at h ⊢
    obtain ⟨_, hrest⟩ := h.below
    obtain ⟨hmembers, _⟩ := laidAll_append.1 hrest
    have hfacts := facts_members hsize hfirst members hfree hsplit hmembers hinside
    rw [reached_between, List.filterMap_cons, hnone, Value.leaves]
    exact hfacts

theorem facts_members (hsize : t.size ≤ 18446744073709551615) (hfirst : t.ParentsFirst) :
    ∀ (members : Members) {q k : Nat} {before after : List Char} {names : List (List Char)},
      members.escapeFree = true → src = before ++ (members.chars ++ after) →
      LaidAll src t.node q k (members.shapes before) → Around t src (q :: t.ancestors q) names →
      (reachedAll k (members.shapes before)).filterMap (fact? t src p) =
        (members.leaves names before).map (ofLeaf p)
  | .nil gap, q, k, before, after, names, _, _, _, _ => rfl
  | .cons gap name beforeColon afterColon value afterValue rest, q, k, before, after, names,
      hfree, hsrc, h, haround => by
    rw [Members.escapeFree, Bool.and_eq_true] at hfree
    obtain ⟨⟨w, hname⟩, ⟨w', hvalue⟩, hrest⟩ := places_of_members hsrc
    have hline : (pointOf src (byteLength (before ++ gap.chars))).line =
        (before ++ gap.chars).count '\n' + 1 := by
      rw [hname]
      exact line_pointOf _ _
    obtain ⟨hmember, hbelow⟩ := h
    obtain ⟨_, hlaidRest⟩ := laidAll_append.1 hbelow
    obtain ⟨hlaidName, hlaidValue⟩ := laid_member hmember
    have hnamed := value.isNamed_shape
      (beforeValue (before ++ gap.chars) name beforeColon afterColon)
    have hkind : t.kind k = "pair" := hmember.kind_eq
    have habove : t.ancestors k = q :: t.ancestors q :=
      hfirst.ancestors_of_parent hmember.parent?_eq
    have hinside : Around t src (k :: t.ancestors k) (names ++ [name.chars]) := by
      rw [habove]
      exact haround.pair hkind (memberName?_of_laid hnamed hmember (.of_eq hname))
    have hfact := fact?_of_member (p := p) hfirst hmember haround (.of_eq hname) (.of_eq hvalue)
      hfree.1 hline
    -- the name has no member in it: the facts are those of the pair itself and of its value
    have hnameFacts := filterMap_fact?_of_noPair (p := p) hlaidName (noPair_string _ _)
    have hvalueFacts := facts_value hsize hfirst value hfree.1 hvalue hlaidValue hinside
    have hrestFacts := facts_members hsize hfirst rest hfree.2 hrest hlaidRest haround
    rw [Members.shapes, reachedAll_member, reached_member hnamed, reachedAll_append, reachedAll_commaShapes,
      List.nil_append, List.filterMap_append, hrestFacts, List.filterMap_cons,
      List.filterMap_append, hnameFacts, List.nil_append, hvalueFacts, hfact, Members.leaves,
      List.map_append, List.map_append]
    cases value.scalar? with
    | none => rfl
    | some text => rfl

end

theorem extract_tree {d : Document} (hfree : d.value.escapeFree = true)
    (hsize : d.tree.size ≤ 18446744073709551615) (p : Path) :
    extract d.tree d.text p = flatten p d := by
  obtain ⟨hroot, hshape, hlaid⟩ := d.laid_tree
  have hfirst := hlaid.parentsFirst hshape
  have hkind : d.tree.kind 0 = "document" := hlaid.kind_eq
  have hnone : fact? d.tree d.text p 0 = none := fact?_of_kind (by rw [hkind]; decide)
  have haround : Around d.tree d.text (0 :: d.tree.ancestors 0) [] := by
    rw [SyntaxTree.ancestors_of_root hlaid.parent?_eq]
    have hnil : Around d.tree d.text [] [] := ⟨nofun, rfl⟩
    exact hnil.node (by rw [hkind]; decide) (by rw [hkind]; decide)
  have hfacts := facts_value (p := p) hsize hfirst d.value hfree rfl hlaid.below.1 haround
  rw [extract_eq, hroot, hlaid.descendants_eq hshape, reached_eq, List.filterMap_cons, hnone]
  dsimp only
  rw [Document.shape, Shape.children, reachedAll_singleton _ (d.value.isNamed_shape d.lead)]
  exact hfacts

end Search

section Index

def Kind.save (kind : Kind) (p : Path) (facts : FileFacts Snippet) (s : SnippetStores) :
    Outcome SnippetStores :=
  match kind with
  | .storefront => s.inFirst (·.save [(p, facts)])
  | .administration => s.inSecond (·.save [(p, facts)])

theorem index_eq {kind : Kind} (hkind : kindOf? p = some kind) (env : Surroundings)
    (t : SyntaxTree) (src : Source) (s : SnippetStores) :
    indexer.index env p t src s = kind.save p (extract t src p) s := by
  have haccepts : accepts p = true := by
    rw [accepts, hkind]
    rfl
  change (if accepts p then _ else (s, none)) = _
  rw [haccepts, if_pos rfl, hkind]
  cases kind <;> rfl

/-- The snippets saved for a file are those of its document, flattened. A source has fewer than
`2 ^ 63` bytes, as every string does. -/
theorem index_saves_flattened {d : Document} (hfree : d.value.escapeFree = true)
    (hbytes : byteLength d.text < 2 ^ 63) {p : Path} {kind : Kind} (hkind : kindOf? p = some kind)
    (env : Surroundings) (s : SnippetStores) :
    indexer.index env p (Json.parse d.text) d.text s = kind.save p (flatten p d) s := by
  have hnodes := d.size_tree_le
  have hchars := length_le_byteLength d.text
  have hsize : d.tree.size ≤ 18446744073709551615 := by omega
  rw [index_eq hkind, d.parse_text, extract_tree hfree hsize]

/-- An object in another, with a repeated name; a list with a member in it; an empty object. -/
def nested : Document :=
  let tight : Gap := ⟨[], nofun⟩
  let line : Gap := ⟨['\n'], List.all_eq_true.1 (by decide)⟩
  let name (chars : String) (h : chars.toList.all isPlainChar = true) : MemberName :=
    ⟨chars.toList, List.all_eq_true.1 h⟩
  let below : Number := ⟨true, ['2'], some ['5'], none, by decide, by decide⟩
  let inner : Members :=
    .cons line (name "x" (by decide)) tight tight (.string (name "one" (by decide)).text) tight
      (.cons line (name "x" (by decide)) tight tight (.number below) tight (.nil tight))
  let hidden : Members :=
    .cons tight (name "c" (by decide)) tight tight (.word .null) tight (.nil tight)
  let members : Members :=
    .cons tight (name "a" (by decide)) tight tight (.object inner) tight
      (.cons line (name "b" (by decide)) tight tight
        (.array (.cons tight (.object hidden) tight (.nil tight))) tight
        (.cons tight (name "e" (by decide)) tight tight (.word .yes) tight
          (.cons tight (name "f" (by decide)) tight tight (.object (.nil tight)) tight (.nil tight))))
  ⟨true, tight, .object members, line⟩

theorem index_saves_flattened_nested :
    let file : Path := .ofString "/p/Resources/snippet/a.json"
    nested.value.escapeFree = true ∧ byteLength nested.text < 2 ^ 63 ∧
      kindOf? file = some .storefront ∧
      String.ofList nested.text = "\uFEFF\x7b\"a\":\x7b\n\"x\":\"one\",\n\"x\":-2.5\x7d,\n" ++
        "\"b\":[\x7b\"c\":null\x7d],\"e\":true,\"f\":\x7b\x7d\x7d\n" ∧
      indexer.index default file (Json.parse nested.text) nested.text emptyStores =
        Kind.storefront.save file
          [("a.x", ⟨"a.x", "one", file.toString, 2⟩), ("a.x", ⟨"a.x", "-2.5", file.toString, 3⟩),
            ("e", ⟨"e", "true", file.toString, 4⟩)] emptyStores := by
  intro file
  have hfree : nested.value.escapeFree = true := by decide +kernel
  have hbytes : byteLength nested.text < 2 ^ 63 := by decide +kernel
  have hkind : kindOf? file = some .storefront := by decide +kernel
  have hflat : flatten file nested = [("a.x", ⟨"a.x", "one", file.toString, 2⟩),
      ("a.x", ⟨"a.x", "-2.5", file.toString, 3⟩), ("e", ⟨"e", "true", file.toString, 4⟩)] := by
    decide +kernel
  refine ⟨hfree, hbytes, hkind, by decide +kernel, ?_⟩
  rw [← hflat]
  exact index_saves_flattened hfree hbytes hkind default emptyStores

end Index

end Snippets
end ProjectIndex
