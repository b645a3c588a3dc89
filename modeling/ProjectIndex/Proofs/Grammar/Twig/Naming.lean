import ProjectIndex.Proofs.Grammar.Twig.Balance
import ProjectIndex.Proofs.Grammar.Twig.Placement
import ProjectIndex.Proofs.Grammar.Twig.Statements
import ProjectIndex.Proofs.Tree.Reading

/-!
The names of the blocks in a template. The statement of a block names it by the first identifier among
its arguments, whether the block has its body inline or stays open. The named blocks of the tree, in
document order, are those of the statements from left to right.
-/
namespace ProjectIndex.Twig

open ProjectIndex.Text ProjectIndex.Shape TreeBuilder

/-- The name of a block: the byte its tag starts at, the byte it starts at itself, and its text. -/
structure BlockName where
  tag : Nat
  start : Nat
  chars : List Char
deriving DecidableEq, Repr

def firstName? (tag : Nat) (args : List Token) : Option BlockName :=
  (args.find? Token.isIdentifier).map fun name => ⟨tag, name.start, name.chars⟩

def statementName? (tag : Nat) : List Token → Option BlockName
  | [] => none
  | t :: args => if t.isWord "block" then firstName? tag args else none

def Segment.blockName? (pos : Nat) : Segment → Option BlockName
  | .statement body true => statementName? pos (tokenize (pos + 2) body)
  | _ => none

def blockNames (pos : Nat) : List Segment → List BlockName
  | [] => []
  | s :: rest => (s.blockName? pos).toList ++ blockNames (pos + byteLength s.chars) rest

def nameOf? (t : SyntaxTree) (src : Source) (i : NodeId) : Option BlockName :=
  if t.kind i = "block" then
    (t.childOfKind? i "identifier").map fun c =>
      ⟨(t.node i).startByte, (t.node c).startByte, t.text src c⟩
  else none

section Tokens

variable {tag tag' pos : Nat} {s : List Char} {c : Char}

theorem isSome_firstName? {ts us : List Token}
    (h : ts.map (fun t => (t.kind, t.chars)) = us.map fun t => (t.kind, t.chars)) :
    (firstName? tag ts).isSome = (firstName? tag' us).isSome := by
  have hany (vs : List Token) : (vs.find? Token.isIdentifier).isSome =
      (vs.map fun t => (t.kind, t.chars)).any fun p => p.1 == .identifier := by
    rw [List.any_map, Bool.eq_iff_iff, List.find?_isSome, List.any_eq_true]
    rfl
  rw [firstName?, firstName?, Option.isSome_map, Option.isSome_map, hany, hany, h]

theorem Segment.isSome_blockName? (seg : Segment) (pos pos' : Nat) :
    (seg.blockName? pos).isSome = (seg.blockName? pos').isSome := by
  cases seg with
  | statement body closed =>
    cases closed with
    | false => rfl
    | true =>
      have hmap := map_tokenize (pos + 2) (pos' + 2) body
      rw [blockName?, blockName?]
      generalize tokenize (pos + 2) body = ts at hmap
      generalize tokenize (pos' + 2) body = us at hmap
      cases ts with
      | nil =>
        obtain rfl : us = [] := List.map_eq_nil_iff.1 hmap.symm
        rfl
      | cons t ts =>
        cases us with
        | nil => cases hmap
        | cons u us =>
          obtain ⟨hhead, htail⟩ := List.cons.inj hmap
          obtain ⟨hkind, hchars⟩ := Prod.mk.inj hhead
          have hword : t.isWord "block" = u.isWord "block" := by
            rw [Token.isWord, Token.isWord, Token.isIdentifier, Token.isIdentifier, hkind, hchars]
          rw [statementName?, statementName?, hword]
          split
          · exact isSome_firstName? htail
          · rfl
  | _ => rfl

theorem firstName?_cons (hquote : isQuote c = false) (hstart : startsIdentifier c = false) :
    firstName? tag (tokenize pos (c :: s)) = firstName? tag (tokenize (pos + c.utf8Size) s) := by
  rw [tokenize, hquote, hstart]
  split
  · rfl
  · rfl

end Tokens

section Shapes

def childName? (src : Source) (start : Nat) (xs : List Shape) : Option BlockName :=
  (xs.find? fun c => c.kind == "identifier").map fun c => ⟨start, c.start, slice src c.start c.stop⟩

mutual

def shapeNames (src : Source) : Shape → List BlockName
  | .leaf .. => []
  | .node kind _ _ start _ children =>
    (if kind = "block" then (childName? src start children).toList else []) ++ shapeNamesAll src children

def shapeNamesAll (src : Source) : List Shape → List BlockName
  | [] => []
  | s :: rest => if s.isNamed then shapeNames src s ++ shapeNamesAll src rest else shapeNamesAll src rest

end

variable {t : SyntaxTree} {src : Source} {parent : Option NodeId} {p k : Nat} {s : Shape}
  {xs ys : List Shape}

theorem shapeNamesAll_append :
    shapeNamesAll src (xs ++ ys) = shapeNamesAll src xs ++ shapeNamesAll src ys := by
  induction xs with
  | nil => rfl
  | cons s xs ih =>
    rw [List.cons_append, shapeNamesAll, shapeNamesAll, ih]
    split
    · rw [List.append_assoc]
    · rfl

theorem shapeNamesAll_singleton (h : s.isNamed = true) : shapeNamesAll src [s] = shapeNames src s := by
  rw [shapeNamesAll, if_pos h, shapeNamesAll, List.append_nil]

theorem childName?_append (start : Nat) (hxs : ∀ s ∈ ys, s.kind ≠ "identifier") :
    childName? src start (xs ++ ys) = childName? src start xs := by
  have hnone : (ys.find? fun c => c.kind == "identifier") = none :=
    List.find?_eq_none.2 fun s hs heq => hxs s hs (beq_iff_eq.1 heq)
  rw [childName?, List.find?_append, hnone, Option.or_none]
  rfl

theorem shapeNamesAll_of_leaves (h : ∀ s ∈ xs, s.children = [] ∧ s.kind ≠ "block") :
    shapeNamesAll src xs = [] := by
  induction xs with
  | nil => rfl
  | cons s xs ih =>
    obtain ⟨⟨hleaf, hkind⟩, hrest⟩ := List.forall_mem_cons.1 h
    have hnone : shapeNames src s = [] := by
      cases s with
      | leaf => rfl
      | node kind named error start stop children =>
        obtain rfl : children = [] := hleaf
        have hne : kind ≠ "block" := hkind
        rw [shapeNames, if_neg hne]
        rfl
    rw [shapeNamesAll, ih hrest, hnone]
    split
    · rfl
    · rfl

theorem find?_ids (kind : String) (h : LaidAll src t.node p k xs) :
    ((ids k xs).find? fun c => t.kind c == kind).map (fun c => ((t.node c).startByte, t.text src c)) =
      (xs.find? fun c => c.kind == kind).map fun c => (c.start, slice src c.start c.stop) := by
  induction xs generalizing k with
  | nil => rfl
  | cons s xs ih =>
    obtain ⟨hs, hrest⟩ := h
    rw [ids, List.find?_cons, List.find?_cons, hs.kind_eq]
    split
    · rw [Option.map_some, Option.map_some, hs.text_eq, (laid_iff.1 hs).1]
      rfl
    · exact ih hrest

theorem nameOf?_eq (h : Laid src t.node parent k s) :
    nameOf? t src k = if s.kind = "block" then childName? src s.start s.children else none := by
  have hfind := congrArg (Option.map fun c => (⟨s.start, c.1, c.2⟩ : BlockName))
    (find?_ids "identifier" h.below)
  rw [Option.map_map, Option.map_map] at hfind
  rw [nameOf?, h.kind_eq, SyntaxTree.childOfKind?, h.children_eq, childName?, (laid_iff.1 h).1]
  split
  · exact hfind
  · rfl

mutual

theorem filterMap_reached : ∀ {s : Shape} {parent : Option NodeId} {k : Nat},
    Laid src t.node parent k s → (s.reached k).filterMap (nameOf? t src) = shapeNames src s
  | .leaf kind named error start stop, parent, k, h => by
    have hname := nameOf?_eq h
    rw [reached, shapeNames]
    have hnone : nameOf? t src k = none := by
      rw [hname]
      split
      · rfl
      · rfl
    exact List.filterMap_cons_none hnone
  | .node kind named error start stop children, parent, k, h => by
    have hbelow : (reachedAll (k + 1) children).filterMap (nameOf? t src) = shapeNamesAll src children :=
      filterMap_reachedAll h.2
    have hname := nameOf?_eq h
    rw [reached, shapeNames, ← hbelow]
    change nameOf? t src k = if kind = "block" then childName? src start children else none at hname
    by_cases hkind : kind = "block"
    · rw [if_pos hkind] at hname ⊢
      rw [← hname]
      cases hfound : nameOf? t src k with
      | none => exact List.filterMap_cons_none hfound
      | some n => exact List.filterMap_cons_some hfound
    · rw [if_neg hkind] at hname ⊢
      exact List.filterMap_cons_none hname

theorem filterMap_reachedAll : ∀ {xs : List Shape} {p k : Nat},
    LaidAll src t.node p k xs → (reachedAll k xs).filterMap (nameOf? t src) = shapeNamesAll src xs
  | [], _, _, _ => rfl
  | s :: rest, p, k, h => by
    obtain ⟨hs, hrest⟩ := h
    have hbehind := filterMap_reachedAll (k := k + s.size) hrest
    rw [reachedAll, shapeNamesAll]
    split
    · rw [List.filterMap_append, filterMap_reached hs, hbehind]
    · exact hbehind

end

end Shapes

section Frames

/-- The frames of a builder behind statements that named some blocks. -/
inductive Names (src : Source) : List Frame → List BlockName → Prop
  | root {done : List Shape} :
    Names src [⟨0, "template", true, 0, done⟩] (shapeNamesAll src done)
  | inner {f : Frame} {outer : List Frame} {ns : List BlockName} (hnamed : f.named = true)
    (hkind : f.kind = "block") (h : Names src outer ns) :
    Names src (f :: outer) (ns ++ shapeNames src (f.shape false 0))

variable {src : Source} {b : TreeBuilder} {f g : Frame} {fs outer : List Frame} {ns : List BlockName}
  {start stop pos : Nat} {kind : String} {s : Shape}

theorem shapeNames_shape (hkind : f.kind = "block") (error : Bool) (stop : Nat) :
    shapeNames src (f.shape error stop) =
      (childName? src f.start f.done).toList ++ shapeNamesAll src f.done := by
  rw [Frame.shape, shapeNames, if_pos hkind]

theorem Names.exists_cons (h : Names src fs ns) : ∃ f outer, fs = f :: outer := by
  cases h with
  | root => exact ⟨_, _, rfl⟩
  | inner => exact ⟨_, _, rfl⟩

theorem Names.add (h : Names src (f :: outer) ns) (hs : s.kind ≠ "identifier") :
    Names src (f.add s :: outer) (ns ++ shapeNamesAll src [s]) := by
  cases h with
  | root =>
    rw [← shapeNamesAll_append]
    exact .root
  | inner hnamed hkind h =>
    have hsame : shapeNames src ((f.add s).shape false 0) =
        shapeNames src (f.shape false 0) ++ shapeNamesAll src [s] := by
      have hadd : (f.add s).kind = "block" := hkind
      rw [shapeNames_shape hadd, shapeNames_shape hkind]
      change (childName? src f.start (f.done ++ [s])).toList ++ shapeNamesAll src (f.done ++ [s]) = _
      rw [childName?_append f.start (List.forall_mem_singleton.2 hs), shapeNamesAll_append,
        List.append_assoc]
    rw [List.append_assoc, ← hsame]
    exact .inner hnamed hkind h

theorem Names.add_leaf (h : Names src (f :: outer) ns) {named error : Bool}
    (hne : kind ≠ "identifier") (hblock : kind ≠ "block") :
    Names src (f.add (.leaf kind named error start stop) :: outer) ns := by
  have hnone : shapeNamesAll src [.leaf kind named error start stop] = [] :=
    shapeNamesAll_of_leaves (List.forall_mem_singleton.2 ⟨rfl, hblock⟩)
  have hadd := h.add (s := .leaf kind named error start stop) hne
  rw [hnone, List.append_nil] at hadd
  exact hadd

theorem Names.close (h : Names src (f :: g :: outer) ns) (error : Bool) (stop : Nat) :
    Names src (g.add (f.shape error stop) :: outer) ns := by
  cases h with
  | inner hnamed hkind h =>
    have hadd := h.add (s := f.shape error stop) (by rw [Frame.shape, Shape.kind, hkind]; decide)
    have hlast : shapeNamesAll src [f.shape error stop] = shapeNames src (f.shape false 0) := by
      have hshape : (f.shape error stop).isNamed = true := hnamed
      rw [shapeNamesAll_singleton hshape, shapeNames_shape hkind, shapeNames_shape hkind]
    rw [hlast] at hadd
    exact hadd

theorem Names.exists_outer (h : Names src (f :: fs) ns) (hkind : f.kind = "block") :
    ∃ g outer, fs = g :: outer := by
  cases h with
  | root => simp at hkind
  | inner _ _ h => exact h.exists_cons

end Frames

section Reading

variable {src : Source} {b : TreeBuilder} {ns : List BlockName} {start stop pos : Nat} {kind : String}

def Named (src : Source) (b : TreeBuilder) (ns : List BlockName) : Prop :=
  ∃ fs, b.Stands src fs ∧ Names src fs ns

theorem Named.leaf (h : Named src b ns) (named : Bool) (hne : kind ≠ "identifier")
    (hblock : kind ≠ "block") : Named src (b.leaf kind named start stop) ns := by
  obtain ⟨fs, hstands, hnames⟩ := h
  obtain ⟨f, outer, rfl⟩ := hnames.exists_cons
  exact ⟨_, hstands.leaf kind named start stop, hnames.add_leaf hne hblock⟩

theorem Named.errorLeaf (h : Named src b ns) (hne : kind ≠ "identifier") (hblock : kind ≠ "block") :
    Named src (addErrorLeaf b kind start stop) ns := by
  obtain ⟨fs, hstands, hnames⟩ := h
  obtain ⟨f, outer, rfl⟩ := hnames.exists_cons
  exact ⟨_, hstands.errorLeaf kind true start stop, hnames.add_leaf hne hblock⟩

theorem Named.addClosed (h : Named src b ns) (hne : kind ≠ "identifier") (hblock : kind ≠ "block")
    (closed : Bool) : Named src (addClosed b kind start stop closed) ns := by
  rw [Twig.addClosed]
  split
  · exact h.leaf true hne hblock
  · exact h.errorLeaf hne hblock

theorem Named.addTag (h : Named src b ns) (tokens : List Token) :
    Named src (addTag b start stop tokens) ns := by
  obtain ⟨fs, hstands, hnames⟩ := h
  obtain ⟨f, outer, rfl⟩ := hnames.exists_cons
  have hleaves := forall_mem_tagShapes (P := fun s => s.children = [] ∧ s.kind ≠ "block")
    (fun kind start stop hkind =>
      ⟨rfl, by rcases hkind with rfl | rfl | rfl <;> simp [Shape.named, Shape.kind]⟩) tokens
  have hnone : shapeNamesAll src [.node "tag" true false start stop (tagShapes tokens)] = [] := by
    rw [shapeNamesAll_singleton rfl, shapeNames, if_neg (by decide), shapeNamesAll_of_leaves hleaves]
    rfl
  have hadd := hnames.add (s := .node "tag" true false start stop (tagShapes tokens))
    (by simp [Shape.kind])
  rw [hnone, List.append_nil] at hadd
  exact ⟨_, stands_tagShapes tokens hstands, hadd⟩

theorem childName?_wordShapes {args : List Token} (h : TokensIn src pos stop args) :
    childName? src start (wordShapes args) = firstName? start args := by
  induction args generalizing pos with
  | nil => rfl
  | cons t ts ih =>
    rw [wordShapes, firstName?, List.find?_cons]
    cases hkind : t.kind with
    | identifier =>
      have hword : t.isIdentifier = true := by rw [Token.isIdentifier, hkind]; rfl
      rw [hword]
      change some (BlockName.mk start t.start (slice src t.start t.stop)) = _
      rw [Token.stop, h.2.1.slice_eq]
      rfl
    | string =>
      have hword : t.isIdentifier = false := by rw [Token.isIdentifier, hkind]; rfl
      rw [hword]
      exact ih h.tail
    | other =>
      have hword : t.isIdentifier = false := by rw [Token.isIdentifier, hkind]; rfl
      rw [hword]
      exact ih h.tail

theorem childName?_openingShapes {args : List Token} (h : TokensIn src pos stop args) :
    childName? src start (openingShapes args) = firstName? start args := by
  cases args with
  | nil => rfl
  | cons t ts =>
    rw [openingShapes, firstName?, List.find?_cons]
    cases hword : t.isIdentifier with
    | true =>
      change some (BlockName.mk start t.start (slice src t.start t.stop)) = _
      rw [Token.stop, h.2.1.slice_eq]
      rfl
    | false => exact childName?_wordShapes h.tail

/-- A block has its name from where it is opened, whether it stays open or not. -/
theorem Named.addBlock {args : List Token} (h : Named src b ns) (ht : TokensIn src pos stop args) :
    Named src (addBlock b start stop args) (ns ++ (firstName? start args).toList) := by
  obtain ⟨fs, hstands, hnames⟩ := h
  obtain ⟨f, outer, rfl⟩ := hnames.exists_cons
  have hleaves := forall_mem_openingShapes (P := fun s => s.children = [] ∧ s.kind ≠ "block")
    (fun kind start stop hkind =>
      ⟨rfl, by rcases hkind with rfl | rfl <;> simp [Shape.named, Shape.kind]⟩) args
  have hshape (error : Bool) (stop : Nat) :
      shapeNames src (.node "block" true error start stop (openingShapes args)) =
        (firstName? start args).toList := by
    rw [shapeNames, if_pos rfl, childName?_openingShapes ht, shapeNamesAll_of_leaves hleaves,
      List.append_nil]
  refine ⟨_, stands_openingShapes args hstands, ?_⟩
  split
  · have hadd := hnames.add (s := .node "block" true false start stop (openingShapes args))
      (by simp [Shape.kind])
    rw [shapeNamesAll_singleton rfl, hshape] at hadd
    exact hadd
  · rw [← hshape false 0]
    exact .inner rfl rfl hnames

theorem Named.addEndBlock (h : Named src b ns) : Named src (addEndBlock b start stop) ns := by
  rw [Twig.addEndBlock]
  split
  · next hblock =>
    obtain ⟨fs, hstands, hnames⟩ := h
    obtain ⟨f, outer, rfl⟩ := hnames.exists_cons
    have hkind : f.kind = "block" := by
      rw [hstands.currentKind?] at hblock
      exact Option.some.inj hblock
    obtain ⟨g, outer, rfl⟩ := hnames.exists_outer hkind
    have hleaf : Names src (f.add (.leaf "endblock" false false start stop) :: g :: outer) ns :=
      hnames.add_leaf (by decide) (by decide)
    exact ⟨_, (hstands.leaf "endblock" false start stop).close stop, hleaf.close false stop⟩
  · exact h.errorLeaf (by decide) (by decide)

theorem Named.addStatement {tokens : List Token} (h : Named src b ns)
    (ht : TokensIn src pos stop tokens) :
    Named src (addStatement b start stop tokens) (ns ++ (statementName? start tokens).toList) := by
  cases tokens with
  | nil =>
    rw [statementName?, Option.toList_none, List.append_nil]
    exact h.addTag []
  | cons t args =>
    rw [addStatement_cons, statementName?]
    split
    · exact h.addBlock ht.tail
    · rw [Option.toList_none, List.append_nil]
      split
      · exact h.addEndBlock
      · exact h.addTag _

theorem Named.addSegment {s : Segment} (h : Named src b ns) (hs : OccursAt src pos s.chars) :
    Named src (addSegment b pos s) (ns ++ (s.blockName? pos).toList) := by
  have hsame {b' : TreeBuilder} (h : Named src b' ns) :
      Named src b' (ns ++ (none : Option BlockName).toList) := by
    rw [Option.toList_none, List.append_nil]
    exact h
  rw [addSegment.eq_def]
  dsimp only
  split
  · split
    · exact hsame h
    · exact hsame (h.leaf true (by decide) (by decide))
  · exact hsame (h.addClosed (by decide) (by decide) _)
  · exact hsame (h.addClosed (by decide) (by decide) _)
  · next body =>
    have hbody : OccursAt src (pos + 2) body := (hs.right (x := ['{', '%'])).left
    have hlength := byteLength_segment .statement body
    rw [Delimiter.segment] at hlength
    exact h.addStatement ((tokensIn_tokenize hbody).extend (by omega))
  · exact hsame (h.errorLeaf (by decide) (by decide))

theorem Named.addSegments {segs : List Segment} (h : Named src b ns)
    (hs : OccursAt src pos (segs.flatMap Segment.chars)) :
    Named src (addSegments b pos segs) (ns ++ blockNames pos segs) := by
  induction segs generalizing b ns pos with
  | nil =>
    rw [blockNames, List.append_nil]
    exact h
  | cons s segs ih =>
    rw [List.flatMap_cons] at hs
    rw [Twig.addSegments, blockNames, ← List.append_assoc]
    exact ih (h.addSegment hs.left) hs.right

theorem Named.closeBlocks (h : Named src b ns) :
    ∃ done, (closeBlocks b b.opened).Stands src [⟨0, "template", true, 0, done⟩] ∧
      shapeNamesAll src done = ns := by
  obtain ⟨fs, hstands, hnames⟩ := h
  induction hlength : fs.length generalizing b fs with
  | zero =>
    obtain ⟨f, outer, rfl⟩ := hnames.exists_cons
    cases hlength
  | succ n ih =>
    cases hnames with
    | @root done =>
      rw [hstands.opened]
      exact ⟨done, hstands, rfl⟩
    | @inner f outer ns hnamed hkind h =>
      obtain ⟨g, outer, rfl⟩ := h.exists_cons
      have hnext := hstands.closeError (byteLength src)
      have hclosed := (Names.inner hnamed hkind h).close true (byteLength src)
      rw [hstands.opened]
      change ∃ done, (Twig.closeBlocks _ ((g :: outer).map Frame.id)).Stands src _ ∧ _
      rw [hstands.sourceLength, ← show _ = (g :: outer).map Frame.id from hnext.opened]
      exact ih _ hnext hclosed (Nat.succ.inj hlength)

/-- The named blocks of a tree, in document order, are those of the statements of its source. -/
theorem filterMap_descendants (src : Source) :
    ((parse src).descendants (parse src).root).filterMap (nameOf? (parse src) src) =
      blockNames 0 (cut src) := by
  have hroot : Named src ((TreeBuilder.new src).openNode "template" true 0) [] :=
    ⟨_, stands_root src "template" true, .root⟩
  have hat : OccursAt src 0 ((cut src).flatMap Segment.chars) := by
    rw [(cuts_cut src).flatMap_chars]
    exact .self src
  let b := addSegments ((TreeBuilder.new src).openNode "template" true 0) 0 (cut src)
  have hread : Named src b (blockNames 0 (cut src)) := hroot.addSegments hat
  obtain ⟨_, hbehind, _⟩ := id hread
  obtain ⟨done, hstands, hnames⟩ := hread.closeBlocks
  obtain ⟨hzero, hsize, hlaid⟩ := hstands.finish (byteLength src)
  have hparse : parse src = ((closeBlocks b b.opened).close (byteLength src)).finish := by
    rw [← hbehind.sourceLength]
    rfl
  rw [← hparse] at hzero hsize hlaid
  rw [hzero, hlaid.descendants_eq hsize, filterMap_reached hlaid]
  -- the root is a template and so adds no name of its own
  exact hnames

end Reading
end ProjectIndex.Twig
