import Mathlib.Data.List.Basic
import ProjectIndex.Domain.Templates.Indexer
import ProjectIndex.Proofs.Domain.Literals
import ProjectIndex.Proofs.Domain.Templates.Spelling
import ProjectIndex.Proofs.Grammar.Twig.Placement
import ProjectIndex.Proofs.Grammar.Twig.Rendering
import ProjectIndex.Proofs.Tree.Reading

/-!
What the record of a template says: each of its blocks once, under an identifier; and for a template
that is written out with its only block at the end, that block with its line and its marker, and the
template that it extends.
-/
namespace ProjectIndex.Templates

open ProjectIndex.Text ProjectIndex.Shape ProjectIndex.Twig

section Blocks

variable {t : SyntaxTree} {src : Source} {p : Path} {b : TemplateBlock} {bs : List TemplateBlock}

theorem mem_of_mem_distinctBlocks (h : b ∈ distinctBlocks bs) : b ∈ bs := by
  induction bs with
  | nil => exact h
  | cons c bs ih =>
    rw [distinctBlocks] at h
    rcases List.mem_cons.1 h with rfl | hrest
    · exact List.mem_cons_self ..
    · exact List.mem_cons_of_mem _ (ih (List.mem_filter.1 hrest).1)

theorem find?_distinctBlocks (h : b ∈ distinctBlocks bs) :
    (distinctBlocks bs).find? (fun c => c.name == b.name) = some b := by
  induction bs with
  | nil => cases h
  | cons c bs ih =>
    rw [distinctBlocks] at h ⊢
    rcases List.mem_cons.1 h with rfl | hrest
    · rw [List.find?_cons, beq_self_eq_true]
    · obtain ⟨hmem, hname⟩ := List.mem_filter.1 hrest
      -- of the blocks with another name than `c`, those with the name of `b` are all still there
      have hne : b.name ≠ c.name := bne_iff_ne.1 hname
      have hother : (c.name == b.name) = false := beq_eq_false_iff_ne.2 hne.symm
      have hkeeps : ∀ d : TemplateBlock,
          (d.name != c.name && d.name == b.name) = (d.name == b.name) := by
        intro d
        by_cases hd : d.name = b.name
        · simp [hd, hne]
        · simp [hd]
      rw [List.find?_cons, hother, List.find?_filter]
      simp only [Bool.decide_and, Bool.decide_eq_true, hkeeps]
      exact ih hmem

theorem isIdentifier_of_mem_blocks (h : b ∈ (record (Twig.parse src) src p).blocks) :
    IsIdentifier b.name.toList := by
  obtain ⟨i, _, hblock⟩ := List.mem_filterMap.1 (mem_of_mem_distinctBlocks h)
  obtain ⟨name, hname, rfl⟩ := Option.map_eq_some_iff.1 hblock
  have hkind : (Twig.parse src).kind name = "identifier" := by
    simpa using List.find?_some hname
  have hin : name < (Twig.parse src).size := by
    by_contra hout
    -- what is outside of the tree has the kind of the default node
    have hnothing : (Twig.parse src).kind name = "" := by
      rw [SyntaxTree.kind, SyntaxTree.node, Array.getD_eq_getD_getElem?,
        Array.getElem?_eq_none (Nat.not_lt.1 hout)]
      rfl
    rw [hnothing] at hkind
    exact absurd hkind (by decide)
  have hident := isIdentifier_text hin hkind
  simpa [textString] using hident

end Blocks

section Plain

variable {t : SyntaxTree} {src : Source} {xs ys : List Shape} {pos k : Nat}

def Plain (s : Shape) : Prop :=
  s.kind ≠ "block" ∧ ∀ c ∈ s.children, c.kind ≠ "block" ∧ c.children = []

theorem hereditary_plain : Hereditary Plain := by
  intro s hs c hc
  obtain ⟨hkind, hleaf⟩ := hs.2 c hc
  refine ⟨hkind, fun d hd => ?_⟩
  rw [hleaf] at hd
  cases hd

theorem plain_leaf {kind : String} (hkind : kind ≠ "block") (named error : Bool) (start stop : Nat) :
    Plain (.leaf kind named error start stop) := ⟨hkind, nofun⟩

def isBlock : Item → Bool
  | .block .. => true
  | _ => false

theorem plain_arguments (args : List Argument) (pos : Nat) :
    ∀ c ∈ Argument.shapes pos args, c.kind ≠ "block" ∧ c.children = [] := by
  induction args generalizing pos with
  | nil => nofun
  | cons a args ih =>
    rw [Argument.shapes, List.forall_mem_cons]
    have hkind : a.kind ≠ "block" := by
      cases a with
      | identifier => exact show "identifier" ≠ "block" by decide
      | string => exact show "string" ≠ "block" by decide
    exact ⟨⟨hkind, rfl⟩, ih _⟩

theorem plain_shapes {item : Item} (h : isBlock item = false) (pos : Nat) :
    ∀ s ∈ item.shapes pos, Plain s := by
  cases item with
  | text chars =>
    rw [Item.shapes]
    split
    · nofun
    · exact List.forall_mem_singleton.2 (plain_leaf (by decide) ..)
  | comment body =>
    rw [Item.shapes]
    exact List.forall_mem_singleton.2 (plain_leaf (by decide) ..)
  | output body =>
    rw [Item.shapes]
    exact List.forall_mem_singleton.2 (plain_leaf (by decide) ..)
  | tag name args =>
    rw [Item.shapes, List.forall_mem_singleton]
    have hkind : "tag" ≠ "block" := by decide
    have hname : "name" ≠ "block" := by decide
    exact ⟨hkind, List.forall_mem_cons.2 ⟨⟨hname, rfl⟩, plain_arguments args _⟩⟩
  | block => cases h

theorem plain_shapesAll {items : List Item} (h : ∀ item ∈ items, isBlock item = false) (pos : Nat) :
    ∀ s ∈ Item.shapesAll pos items, Plain s := by
  induction items generalizing pos with
  | nil =>
    rw [Item.shapesAll]
    nofun
  | cons item items ih =>
    obtain ⟨hitem, hitems⟩ := List.forall_mem_cons.1 h
    rw [Item.shapesAll, List.forall_mem_append]
    exact ⟨plain_shapes hitem pos, ih hitems _⟩

theorem namedBlock_matches (t : SyntaxTree) (src : Source) (i : NodeId) :
    namedBlock.matchesNode t src i =
      (t.kind i == "block" && (t.namedChildren i).any fun c => t.kind c == "identifier") := by
  simp [namedBlock, Pattern.matchesNode, Pattern.matchesAll]

theorem filter_plain {q : Nat} (h : LaidAll src t.node q k xs) (hxs : ∀ s ∈ xs, Plain s) :
    (reachedAll k xs).filter (namedBlock.matchesNode t src) = [] := by
  rw [List.filter_eq_nil_iff]
  intro i hi hmatches
  obtain ⟨_, s, hs, hlaid⟩ := h.part hereditary_plain hxs hi
  rw [namedBlock_matches, hlaid.kind_eq, Bool.and_eq_true, beq_iff_eq] at hmatches
  exact hs.1 hmatches.1

theorem filter_block {parent : Option NodeId} {start stop first last : Nat}
    (h : Laid src t.node parent k
      (.node "block" true false start stop (.named "identifier" first last :: xs)))
    (hxs : ∀ s ∈ xs, Plain s) :
    (reachedAll k [.node "block" true false start stop (.named "identifier" first last :: xs)]).filter
      (namedBlock.matchesNode t src) = [k] := by
  have hname : Plain (.named "identifier" first last) := plain_leaf (by decide) ..
  have hleaf : t.kind (k + 1) = "identifier" := h.below.1.kind_eq
  have hnamed : t.namedChildren k = (k + 1) :: namedIds (k + 1 + 1) xs := h.namedChildren_eq
  have hhere : namedBlock.matchesNode t src k = true := by
    rw [namedBlock_matches, h.kind_eq, hnamed, List.any_cons, hleaf]
    rfl
  have hbelow := filter_plain h.below (List.forall_mem_cons.2 ⟨hname, hxs⟩)
  rw [reachedAll_singleton k (s := _) rfl, reached_eq, List.filter_cons_of_pos hhere]
  exact congrArg (k :: ·) hbelow

end Plain
section Alone

variable {pre inner : List Item} {name body ref : List Char} {p : Path}

def withBlock (pre : List Item) (name : List Char) (inner : List Item) : List Item :=
  pre ++ [.block name inner]

def blockId (pre : List Item) : NodeId := 0 + 1 + sizeAll (Item.shapesAll 0 pre)

theorem laid_withBlock (h : Item.AllWellFormed (withBlock pre name inner))
    (hinner : ∀ item ∈ inner, isBlock item = false) :
    let src := Item.renderAll (withBlock pre name inner)
    let t := Twig.parse src
    let start := byteLength (Item.renderAll pre)
    ∃ stop rest, (∀ s ∈ rest, Plain s) ∧
      let block := Shape.node "block" true false start stop
        (.named "identifier" (start + Item.beforeBlockName)
          (start + Item.beforeBlockName + byteLength name) :: rest)
      let root := Shape.node "template" true false 0 (byteLength src)
        (Item.shapesAll 0 pre ++ [block])
      t.root = 0 ∧ t.size = root.size ∧ Laid src t.node none 0 root := by
  intro src t start
  have hparsed := Item.laid_parse_renderAll h
  rw [withBlock, Item.shapesAll_append, Item.shapesAll, Item.shapesAll, Item.shapes,
    List.append_nil, Nat.zero_add] at hparsed
  refine ⟨_, _, ?_, hparsed⟩
  rw [List.forall_mem_append, List.forall_mem_singleton]
  exact ⟨plain_shapesAll hinner _, plain_leaf (by decide) ..⟩

theorem findAll_withBlock (h : Item.AllWellFormed (withBlock pre name inner))
    (hpre : ∀ item ∈ pre, isBlock item = false) (hinner : ∀ item ∈ inner, isBlock item = false) :
    let src := Item.renderAll (withBlock pre name inner)
    let t := Twig.parse src
    namedBlock.findAll t src t.root = [blockId pre] ∧
      t.childOfKind? (blockId pre) "identifier" = some (blockId pre + 1) := by
  intro src t
  obtain ⟨stop, rest, hrest, hroot, hsize, hlaid⟩ := laid_withBlock h hinner
  have hbelow := hlaid.below
  obtain ⟨habove, hblock, _⟩ := laidAll_append.1 hbelow
  have hleaf : t.kind (blockId pre + 1) = "identifier" := hblock.below.1.kind_eq
  have hchildren : t.children (blockId pre) =
      (blockId pre + 1) :: ids (blockId pre + 1 + 1) rest := hblock.children_eq
  have htop : namedBlock.matchesNode t src 0 = false := by
    rw [namedBlock_matches, hlaid.kind_eq]
    rfl
  constructor
  · rw [Pattern.findAll, hroot, hlaid.descendants_eq hsize, reached,
      List.filter_cons_of_neg (by rw [htop]; exact Bool.false_ne_true), reachedAll_append,
      List.filter_append, filter_plain habove (plain_shapesAll hpre 0), List.nil_append]
    exact filter_block hblock hrest
  · rw [SyntaxTree.childOfKind?, hchildren, List.find?_cons, hleaf]
    rfl

def blockOpening : List Char := ['\x7b', '%', ' ', 'b', 'l', 'o', 'c', 'k', ' ']

theorem render_block (name : List Char) (inner : List Item) :
    ∃ rest, (Item.block name inner).render = blockOpening ++ (name ++ rest) := by
  refine ⟨[' '] ++ (Delimiter.statement.closing ++ (Item.renderAll inner ++
    Delimiter.statement.wrap (statementOf Item.endWords))), ?_⟩
  simp [Item.render, Delimiter.wrap, Delimiter.opening, statementOf, Item.blockWords, blockOpening,
    Argument.chars]

theorem renderAll_withBlock (pre : List Item) (name : List Char) (inner : List Item) :
    ∃ rest, Item.renderAll (withBlock pre name inner) =
      (Item.renderAll pre ++ blockOpening) ++ name ++ rest := by
  obtain ⟨rest, hrest⟩ := render_block name inner
  refine ⟨rest, ?_⟩
  rw [withBlock, Item.renderAll_append, Item.renderAll, Item.renderAll, hrest]
  simp

theorem blocks_withBlock (h : Item.AllWellFormed (withBlock pre name inner))
    (hpre : ∀ item ∈ pre, isBlock item = false) (hinner : ∀ item ∈ inner, isBlock item = false) :
    let src := Item.renderAll (withBlock pre name inner)
    let t := Twig.parse src
    ∃ digest, (record t src p).blocks = [⟨String.ofList name,
      (Item.renderAll pre).count '\n' + 1, digest, markerBefore t src t.size (blockId pre)⟩] := by
  intro src t
  obtain ⟨hfound, hident⟩ := findAll_withBlock h hpre hinner
  obtain ⟨stop, rest, _, _, _, hlaid⟩ := laid_withBlock h hinner
  obtain ⟨_, hblock, _⟩ := laidAll_append.1 hlaid.below
  have hname := hblock.below.1
  obtain ⟨behind, hsrc⟩ := renderAll_withBlock pre name inner
  have hstart : byteLength (Item.renderAll pre) + Item.beforeBlockName =
      byteLength (Item.renderAll pre ++ blockOpening) := by
    rw [byteLength_append]
    rfl
  have htext : t.text src (blockId pre + 1) = name := by
    refine hname.text_eq.trans ?_
    change slice src (byteLength (Item.renderAll pre) + Item.beforeBlockName)
      (byteLength (Item.renderAll pre) + Item.beforeBlockName + byteLength name) = name
    rw [hstart]
    exact OccursAt.slice_eq ⟨_, behind, hsrc, rfl⟩
  have hline : t.line (blockId pre + 1) = (Item.renderAll pre).count '\n' + 1 := by
    refine hname.line_eq.trans ?_
    change (pointOf src (byteLength (Item.renderAll pre) + Item.beforeBlockName)).line = _
    have hsplit : src = (Item.renderAll pre ++ blockOpening) ++ (name ++ behind) := by
      rw [← List.append_assoc]
      exact hsrc
    rw [hstart, hsplit, line_pointOf, List.count_append]
    rfl
  refine ⟨Digest.sha256Text (t.text src (blockId pre)), ?_⟩
  change distinctBlocks ((namedBlock.findAll t src t.root).filterMap (block? t src)) = _
  rw [hfound, List.filterMap_cons, block?, hident, Option.map_some, textString, htext, hline]
  rfl

theorem markerBefore_eq_none {t : SyntaxTree} {src : Source} {parent : Option NodeId} {k : Nat}
    {s x : Shape} {xs ys : List Shape} (h : Laid src t.node parent k s)
    (hchildren : s.children = xs ++ x :: ys) (hx : x.isNamed = true)
    (hxs : ∀ c ∈ xs, c.kind ≠ "comment") (n : Nat) :
    markerBefore t src n (k + 1 + sizeAll xs) = none := by
  -- each step goes to a sibling further in front, so the siblings before it are a part of `xs`
  induction n generalizing xs x ys with
  | zero => rfl
  | succ n ih =>
    rw [markerBefore, h.prevNamedSibling?_eq hchildren hx]
    cases hlast : (namedIds (k + 1) xs).getLast? with
    | none => rfl
    | some i =>
      obtain ⟨before, c, after, rfl, hc, rfl⟩ :=
        exists_of_mem_namedIds (List.mem_of_getLast? hlast)
      rw [List.append_assoc, List.cons_append] at hchildren
      have hlaid := h.below
      rw [hchildren, laidAll_append] at hlaid
      have hkind : (t.kind (k + 1 + sizeAll before) == "comment") = false := by
        rw [hlaid.2.1.kind_eq]
        exact beq_eq_false_iff_ne.2 (hxs c (by simp))
      have hrest := ih hchildren hc fun d hd => hxs d (by simp [hd])
      dsimp only
      rw [hkind, hrest]
      split <;> rfl

theorem comment_withBlock {above : List Item} (hpre : pre = above ++ [.comment body, .text ['\n']])
    (h : Item.AllWellFormed (withBlock pre name inner))
    (hinner : ∀ item ∈ inner, isBlock item = false) :
    let src := Item.renderAll (withBlock pre name inner)
    let t := Twig.parse src
    ∃ i, t.prevNamedSibling? (blockId pre) = some i ∧ t.kind i = "comment" ∧
      t.text src i = Delimiter.comment.wrap body ∧
      t.line i = (Item.renderAll above).count '\n' + 1 := by
  intro src t
  obtain ⟨stop, rest, _, _, _, hlaid⟩ := laid_withBlock h hinner
  let start := byteLength (Item.renderAll above)
  let comment := Shape.named "comment" start (start + byteLength (Delimiter.comment.wrap body))
  have hshapes : Item.shapesAll 0 pre = Item.shapesAll 0 above ++ [comment] := by
    rw [hpre, Item.shapesAll_append, Nat.zero_add]
    simp only [Item.shapesAll, Item.shapes, Item.render]
    rfl
  have hsrc : Item.renderAll (withBlock pre name inner) = Item.renderAll above ++
      (Delimiter.comment.wrap body ++ ('\n' :: (Item.block name inner).render)) := by
    rw [withBlock, hpre]
    simp [Item.renderAll_append, Item.renderAll, Item.render]
  have hbelow := hlaid.below
  rw [Shape.children, hshapes, List.append_assoc, laidAll_append] at hbelow
  have hcomment := hbelow.2.1
  refine ⟨0 + 1 + sizeAll (Item.shapesAll 0 above), ?_, hcomment.kind_eq, ?_, ?_⟩
  · rw [blockId, hlaid.prevNamedSibling?_eq rfl rfl, hshapes, namedIds_append]
    exact List.getLast?_concat ..
  · have hoccurs : OccursAt src start (Delimiter.comment.wrap body) :=
      ⟨_, _, by rw [List.append_assoc]; exact hsrc, rfl⟩
    exact hcomment.text_eq.trans hoccurs.slice_eq
  · have hpoint := congrArg (fun s => (pointOf s start).line) hsrc
    exact hcomment.line_eq.trans (hpoint.trans (line_pointOf ..))

/-- The marker of a block is in the comment right in front of it, if that mentions one. -/
theorem markerBefore_comment {above : List Item} (hpre : pre = above ++ [.comment body, .text ['\n']])
    (h : Item.AllWellFormed (withBlock pre name inner))
    (hinner : ∀ item ∈ inner, isBlock item = false)
    (hword : contains (Delimiter.comment.wrap body) markerWord = true) :
    let src := Item.renderAll (withBlock pre name inner)
    let t := Twig.parse src
    markerBefore t src t.size (blockId pre) =
      marker? (Delimiter.comment.wrap body) ((Item.renderAll above).count '\n' + 1) := by
  intro src t
  obtain ⟨i, hprev, hkind, htext, hline⟩ := comment_withBlock hpre h hinner
  obtain ⟨stop, rest, _, _, hsize, _⟩ := laid_withBlock h hinner
  have hpos : t.size = sizeAll _ + 1 := hsize
  rw [hpos, markerBefore, hprev]
  dsimp only
  rw [hkind, htext, hline]
  change (if contains _ markerWord = true then _ else _) = _
  rw [if_pos hword]

def extendsItem (ref : List Char) : Item := .tag "sw_extends".toList [.string '\'' ref]

theorem extendsTag_matches (t : SyntaxTree) (src : Source) (i : NodeId) :
    extendsTag.matchesNode t src i = (t.kind i == "tag" &&
      (((t.ancestors i).take 1).any fun a => t.kind a == "template") &&
      ((t.namedChildren i).any fun c => t.kind c == "name" &&
        (t.text src c == "extends".toList || t.text src c == "sw_extends".toList)) &&
      (t.namedChildren i).any fun c => t.kind c == "string") := by
  simp [extendsTag, Pattern.anyText, Pattern.matchesNode, Pattern.matchesAll, Pattern.matchesAny,
    Bool.and_assoc]

theorem laid_extends {more : List Item} (h : Item.AllWellFormed (extendsItem ref :: more)) :
    let src := Item.renderAll (extendsItem ref :: more)
    let t := Twig.parse src
    (t.kind 1 = "tag" ∧ t.parent? 1 = some 0 ∧ t.children 1 = [2, 3] ∧ t.namedChildren 1 = [2, 3]) ∧
      (t.kind 2 = "name" ∧ t.text src 2 = "sw_extends".toList) ∧
      (t.kind 3 = "string" ∧ t.text src 3 = '\'' :: (ref ++ ['\''])) := by
  intro src t
  obtain ⟨_, _, hlaid⟩ := Item.laid_parse_renderAll h
  have hbelow := hlaid.below
  rw [Shape.children, Item.shapesAll, extendsItem, Item.shapes] at hbelow
  have htag := hbelow.1
  have hname := htag.below.1
  have hstring := htag.below.2.1
  let front : List Char := ['\x7b', '%', ' '] ++ "sw_extends".toList ++ [' ']
  let behind : List Char := ' ' :: (Delimiter.statement.closing ++ Item.renderAll more)
  have hsrc : src = front ++ (['\''] ++ (ref ++ ['\''])) ++ behind := by
    simp [src, front, behind, Item.renderAll, Item.render, extendsItem, Delimiter.wrap,
      Delimiter.opening, statementOf, Item.tagWords, Argument.chars]
  have hnameAt : OccursAt src (byteLength ['\x7b', '%', ' ']) "sw_extends".toList :=
    ⟨_, [' '] ++ (['\''] ++ (ref ++ ['\'']) ++ behind), by rw [hsrc]; simp [front], rfl⟩
  have hstringAt : OccursAt src (byteLength front) (['\''] ++ (ref ++ ['\''])) :=
    ⟨front, behind, hsrc, rfl⟩
  exact ⟨⟨htag.kind_eq, htag.parent?_eq, htag.children_eq, htag.namedChildren_eq⟩,
    ⟨hname.kind_eq, hname.text_eq.trans hnameAt.slice_eq⟩,
    ⟨hstring.kind_eq, hstring.text_eq.trans hstringAt.slice_eq⟩⟩

theorem findFirst?_extends {more : List Item} (h : Item.AllWellFormed (extendsItem ref :: more)) :
    let src := Item.renderAll (extendsItem ref :: more)
    let t := Twig.parse src
    extendsTag.findFirst? t src t.root = some 1 := by
  intro src t
  obtain ⟨hroot, hsize, hlaid⟩ := Item.laid_parse_renderAll h
  obtain ⟨⟨hkind, hparent, _, hnamed⟩, ⟨hnameKind, hname⟩, hstringKind, _⟩ := laid_extends h
  have hstart : t.root = 0 := hroot
  have hancestors : (t.ancestors 1).take 1 = [0] := by
    have hpos : t.size = sizeAll (Item.shapesAll 0 (extendsItem ref :: more)) + 1 := hsize
    rw [SyntaxTree.ancestors, hpos, SyntaxTree.ancestorsUpTo, hparent]
    rfl
  have hmatches : extendsTag.matchesNode t src 1 = true := by
    have htop : t.kind 0 = "template" := hlaid.kind_eq
    rw [extendsTag_matches, hkind, hancestors, hnamed]
    simp [t, src, hnameKind, hstringKind, htop, hname]
  have htop : extendsTag.matchesNode t src 0 = false := by
    rw [extendsTag_matches, hlaid.kind_eq]
    rfl
  have hdescendants : t.descendants 0 = reached 0 _ := hlaid.descendants_eq hsize
  rw [Pattern.findFirst?, hstart, hdescendants, reached_eq, List.find?_cons, htop, Shape.children,
    Item.shapesAll, extendsItem, Item.shapes, reachedAll_append, reachedAll_singleton _ (s := _) rfl,
    reached_eq, List.cons_append, List.find?_cons]
  simp only [hmatches]

theorem parent_extends {more : List Item} (h : Item.AllWellFormed (extendsItem ref :: more)) :
    let src := Item.renderAll (extendsItem ref :: more)
    (record (Twig.parse src) src p).parent = some (String.ofList ref) := by
  intro src
  let t := Twig.parse src
  obtain ⟨⟨_, _, hchildren, _⟩, ⟨hnameKind, _⟩, hstringKind, hstring⟩ := laid_extends h
  have hchild : t.childOfKind? 1 "string" = some 3 := by
    simp [SyntaxTree.childOfKind?, t, src, hchildren, hnameKind, hstringKind]
  change ((extendsTag.findFirst? t src t.root).bind fun i => t.childOfKind? i "string").map
    (fun i => String.ofList (unquote (t.text src i))) = _
  have hquote : IsQuote '\'' := .inr (.inl rfl)
  rw [findFirst?_extends h, Option.bind_some, hchild, Option.map_some, hstring,
    unquote_between hquote]

end Alone
end ProjectIndex.Templates
