import ProjectIndex.Grammar.Twig.Tree
import ProjectIndex.Proofs.Grammar.Twig.Placement
import ProjectIndex.Proofs.Grammar.Twig.Safety
import ProjectIndex.Proofs.Tree.Growth
import ProjectIndex.Proofs.Tree.Order

/-!
The named nodes of a Twig tree. The parser adds a single kind of node without a name, the `endblock`
of a block, and never hangs anything below one. So the named descendants of the root are all the
nodes but these.
-/
namespace ProjectIndex.Twig

open TreeBuilder

def Titled (n : Node) : Prop := n.named = true ∨ n.kind = "endblock"

/-- A builder that has added only titled nodes, each below a node with a name. -/
structure Titles (b : TreeBuilder) : Prop where
  root : ∃ r, b.root = some r ∧ r < b.nodes.size ∧ (b.node r).named = true
  opened : ∀ i ∈ b.opened, i < b.nodes.size ∧ (b.node i).named = true
  titled : ∀ i : Nat, i < b.nodes.size → Titled (b.node i)
  below : ∀ i : Nat, i < b.nodes.size → ∀ p, (b.node i).parent = some p →
    p < b.nodes.size ∧ (b.node p).named = true

section Builder

variable {b b' : TreeBuilder} {kind : String} {named : Bool} {start stop : Nat}

def SameTitles (b b' : TreeBuilder) : Prop := ∀ i : Nat, (b'.node i).kind = (b.node i).kind ∧
  (b'.node i).named = (b.node i).named ∧ (b'.node i).parent = (b.node i).parent

theorem sameTitles_setEnd (b : TreeBuilder) (i stop : Nat) : SameTitles b (b.setEnd i stop) := by
  intro j
  rw [node_setEnd]
  split <;> exact ⟨rfl, rfl, rfl⟩

theorem sameTitles_markError (b : TreeBuilder) (i : NodeId) : SameTitles b (b.markError i) := by
  intro j
  rw [node_markError]
  split <;> exact ⟨rfl, rfl, rfl⟩

theorem sameTitles_adopt (b : TreeBuilder) (p child stop : Nat) :
    SameTitles b (b.adopt p child stop) := by
  intro i
  rw [node_adopting]
  split
  · obtain ⟨_, _, hcover⟩ := (b.node i).exists_adopting child stop (b.pointAt stop)
    rw [hcover]
    exact ⟨rfl, rfl, rfl⟩
  · exact ⟨rfl, rfl, rfl⟩

theorem Titles.congr (h : Titles b) (hsame : SameTitles b b') (hsize : b'.nodes.size = b.nodes.size)
    (hroot : b'.root = b.root) (hopened : ∀ i ∈ b'.opened, i ∈ b.opened) : Titles b' where
  root := by
    obtain ⟨r, hr, hlt, hnamed⟩ := h.root
    exact ⟨r, hroot.trans hr, hsize ▸ hlt, (hsame r).2.1.trans hnamed⟩
  opened i hi := by
    rw [hsize, (hsame i).2.1]
    exact h.opened i (hopened i hi)
  titled i hi := by
    rw [Titled, (hsame i).1, (hsame i).2.1]
    exact h.titled i (hsize ▸ hi)
  below i hi p hp := by
    rw [(hsame i).2.2] at hp
    rw [hsize, (hsame p).2.1]
    exact h.below i (hsize ▸ hi) p hp

theorem Titles.setEnd (h : Titles b) (i stop : Nat) : Titles (b.setEnd i stop) :=
  h.congr (sameTitles_setEnd b i stop) (size_setEnd b i stop) rfl fun _ hi => hi

theorem Titles.markError (h : Titles b) (i : NodeId) : Titles (b.markError i) :=
  h.congr (sameTitles_markError b i) (size_markError b i) rfl fun _ hi => hi

theorem Titles.attachment (h : Titles b) :
    ∃ p, b.attachment = some p ∧ p < b.nodes.size ∧ (b.node p).named = true := by
  unfold TreeBuilder.attachment
  cases hopened : b.opened with
  | nil =>
    obtain ⟨r, hr, hin⟩ := h.root
    exact ⟨r, by simp [hr], hin⟩
  | cons i rest => exact ⟨i, rfl, h.opened i (by rw [hopened]; exact List.mem_cons_self ..)⟩

theorem Titles.withNode (h : Titles b) {n : Node} (hn : Titled n)
    (hparent : ∀ p, n.parent = some p → p < b.nodes.size ∧ (b.node p).named = true) :
    Titles (b.withNode n) := by
  have hsize := size_withNode b n
  have hkept (i : Nat) (hi : i < b.nodes.size ∧ (b.node i).named = true) :
      i < (b.withNode n).nodes.size ∧ ((b.withNode n).node i).named = true := by
    rw [hsize, node_withNode_of_lt n hi.1]
    exact ⟨Nat.lt_succ_of_lt hi.1, hi.2⟩
  have hcases (i : Nat) (hi : i < (b.withNode n).nodes.size) :
      i < b.nodes.size ∧ (b.withNode n).node i = b.node i ∨ (b.withNode n).node i = n := by
    rw [hsize] at hi
    rcases Nat.lt_succ_iff_lt_or_eq.1 hi with hlt | rfl
    · exact .inl ⟨hlt, node_withNode_of_lt n hlt⟩
    · exact .inr (node_withNode_size b n)
  refine ⟨?_, fun i hi => hkept i (h.opened i hi), fun i hi => ?_, fun i hi p hp => hkept p ?_⟩
  · obtain ⟨r, hr, hin⟩ := h.root
    exact ⟨r, hr, hkept r hin⟩
  · rcases hcases i hi with ⟨hlt, heq⟩ | heq
    · rw [heq]
      exact h.titled i hlt
    · rw [heq]
      exact hn
  · rcases hcases i hi with ⟨hlt, heq⟩ | heq
    · rw [heq] at hp
      exact h.below i hlt p hp
    · rw [heq] at hp
      exact hparent p hp

theorem Titles.push (h : Titles b) (htitled : named = true ∨ kind = "endblock") :
    let c := b.push kind named start stop
    Titles c ∧ c.nodes.size = b.nodes.size + 1 ∧ (c.node b.nodes.size).named = named := by
  obtain ⟨p, hp, hin⟩ := h.attachment
  let n : Node := ⟨kind, named, false, start, stop, b.pointAt start, b.pointAt stop, some p, #[]⟩
  have hpush : b.push kind named start stop = (b.withNode n).adopt p b.nodes.size stop :=
    push_of_attachment kind named start stop hp
  have hnode : Titles (b.withNode n) := h.withNode htitled fun q hq => by
    obtain rfl : p = q := Option.some.inj hq
    exact hin
  have hsame := sameTitles_adopt (b.withNode n) p b.nodes.size stop
  obtain ⟨hopened, hroot, _⟩ := adopt_eq (b.withNode n) p b.nodes.size stop
  have hsize := size_adopt (b.withNode n) p b.nodes.size stop
  rw [hpush]
  refine ⟨hnode.congr hsame hsize hroot fun i hi => hopened ▸ hi, ?_, ?_⟩
  · rw [hsize, size_withNode]
  · rw [(hsame _).2.1, node_withNode_size]

theorem Titles.leaf (h : Titles b) (htitled : named = true ∨ kind = "endblock") :
    Titles (b.leaf kind named start stop) := (h.push htitled).1

theorem Titles.openNode (h : Titles b) : Titles (b.openNode kind true start) := by
  obtain ⟨hpush, hsize, hnew⟩ := @Titles.push b kind true start start h (.inl rfl)
  have hlast : (b.push kind true start start).lastId = b.nodes.size := by
    rw [lastId, hsize]
    rfl
  refine ⟨hpush.root, fun i hi => ?_, hpush.titled, hpush.below⟩
  rcases List.mem_cons.1 hi with rfl | hi
  · rw [hlast]
    exact ⟨hsize ▸ Nat.lt_succ_self _, hnew⟩
  · exact hpush.opened i hi

theorem Titles.close (h : Titles b) (stop : Nat) : Titles (b.close stop) := by
  unfold TreeBuilder.close
  split
  · exact h
  · next i rest hopened =>
    have hrest : Titles { b with opened := rest } :=
      h.congr (fun _ => ⟨rfl, rfl, rfl⟩) rfl rfl fun j hj => hopened ▸ List.mem_cons_of_mem i hj
    exact hrest.setEnd i stop

end Builder

section Pieces

variable {b : TreeBuilder} {kind : String} {start stop : Nat}

theorem Titles.addErrorLeaf (h : Titles b) : Titles (addErrorLeaf b kind start stop) :=
  (h.leaf (.inl rfl)).markError _

theorem Titles.addArguments (h : Titles b) (ts : List Token) : Titles (addArguments b ts) := by
  induction ts generalizing b with
  | nil => exact h
  | cons t ts ih =>
    rw [Twig.addArguments]
    split
    · exact ih (h.leaf (.inl rfl))
    · exact ih (h.leaf (.inl rfl))
    · exact ih h

theorem Titles.addBlock (h : Titles b) (args : List Token) : Titles (addBlock b start stop args) := by
  have hopen : Titles (b.openNode "block" true start) := h.openNode
  unfold Twig.addBlock
  cases args with
  | nil => exact hopen
  | cons t ts =>
    dsimp only
    have hname : Titles (if t.isIdentifier then
        (b.openNode "block" true start).leaf "identifier" true t.start t.stop
        else b.openNode "block" true start) := by
      split
      · exact hopen.leaf (.inl rfl)
      · exact hopen
    split
    · exact (hname.addArguments _).close stop
    · exact hname

theorem Titles.addEndBlock (h : Titles b) : Titles (addEndBlock b start stop) := by
  unfold Twig.addEndBlock
  split
  · exact (h.leaf (.inr rfl)).close stop
  · exact h.addErrorLeaf

theorem Titles.addTag (h : Titles b) (tokens : List Token) :
    Titles (addTag b start stop tokens) := by
  have hopen : Titles (b.openNode "tag" true start) := h.openNode
  unfold Twig.addTag
  refine Titles.close ?_ stop
  cases tokens with
  | nil => exact hopen
  | cons t ts =>
    dsimp only
    split
    · exact (hopen.leaf (.inl rfl)).addArguments ts
    · exact hopen.addArguments _

theorem Titles.addStatement (h : Titles b) (tokens : List Token) :
    Titles (addStatement b start stop tokens) := by
  unfold Twig.addStatement
  split
  · split
    · exact h.addBlock _
    · split
      · exact h.addEndBlock
      · exact h.addTag _
  · exact h.addTag _

theorem Titles.addSegment (h : Titles b) (pos : Nat) (s : Segment) : Titles (addSegment b pos s) := by
  have hclosed (kind : String) (start stop : Nat) (closed : Bool) :
      Titles (addClosed b kind start stop closed) := by
    unfold addClosed
    split
    · exact h.leaf (.inl rfl)
    · exact h.addErrorLeaf
  unfold Twig.addSegment
  dsimp only
  split
  · split
    · exact h
    · exact h.leaf (.inl rfl)
  · exact hclosed ..
  · exact hclosed ..
  · exact h.addStatement _
  · exact h.addErrorLeaf

theorem Titles.addSegments (h : Titles b) (pos : Nat) (segs : List Segment) :
    Titles (addSegments b pos segs) := by
  induction segs generalizing b pos with
  | nil => exact h
  | cons s segs ih =>
    rw [Twig.addSegments]
    exact ih (h.addSegment pos s) _

theorem Titles.closeBlocks (h : Titles b) (ids : List NodeId) : Titles (closeBlocks b ids) := by
  fun_induction Twig.closeBlocks b ids with
  | case1 => exact h
  | case2 => exact h
  | case3 b i rest _ ih => exact ih ((h.close _).markError i)

theorem Titles.closeUnfinished (h : Titles b) (ids : List NodeId) :
    Titles (b.closeUnfinished ids) := by
  fun_induction TreeBuilder.closeUnfinished b ids with
  | case1 b => exact h.congr (fun _ => ⟨rfl, rfl, rfl⟩) rfl rfl nofun
  | case2 b i rest ih => exact ih ((h.markError i).setEnd i _)

theorem titles_template (src : Source) :
    Titles ((TreeBuilder.new src).openNode "template" true 0) := by
  have hzero : ∀ i : Nat, i < 1 → i = 0 := fun i hi => Nat.lt_one_iff.1 hi
  refine ⟨⟨0, rfl, Nat.zero_lt_one, rfl⟩, ?_, fun i hi => ?_, fun i hi p hp => ?_⟩
  · exact List.forall_mem_singleton.2 ⟨Nat.zero_lt_one, rfl⟩
  · rw [hzero i hi]
    exact .inl rfl
  · rw [hzero i hi] at hp
    cases hp

end Pieces

section Parsed

variable {src : Source}

/-- The nodes of a parsed tree have names, but for the closings of blocks; and nothing stands below
a node without a name. -/
theorem parse_titled (src : Source) :
    (∀ i : Nat, i < (parse src).size → Titled ((parse src).node i)) ∧
      ∀ i : Nat, i < (parse src).size → ∀ p, (parse src).parent? i = some p →
        (parse src).isNamed p = true := by
  let b := addSegments ((TreeBuilder.new src).openNode "template" true 0) 0 (cut src)
  let c := (closeBlocks b b.opened).close b.sourceLength
  have hc : Titles (c.closeUnfinished c.opened) :=
    ((((titles_template src).addSegments 0 (cut src)).closeBlocks _).close _).closeUnfinished _
  obtain ⟨r, hr, _⟩ := hc.root
  have hparse : parse src = ⟨(c.closeUnfinished c.opened).nodes, r⟩ := by
    change c.finish = _
    unfold TreeBuilder.finish
    dsimp only
    rw [hr]
  rw [hparse]
  exact ⟨hc.titled, fun i hi p hp => (hc.below i hi p hp).2⟩

theorem isNamed_of_ne {i : Nat} (hi : i < (parse src).size)
    (hkind : (parse src).kind i ≠ "endblock") : (parse src).isNamed i = true :=
  ((parse_titled src).1 i hi).resolve_right hkind

/-- Every node but the closings of blocks is a named descendant of the root. -/
theorem mem_descendants {i : Nat} (hi : i < (parse src).size)
    (hnamed : (parse src).isNamed i = true) :
    i ∈ (parse src).descendants (parse src).root := by
  obtain ⟨done, _, hroot, hsize, hlaid⟩ := parse_placed src
  obtain ⟨_, _, _, _, _, _, _, hcovers⟩ := parse_safe src
  rw [hroot, hlaid.descendants_eq hsize]
  -- by induction on the id: the parent of a node comes before it and has a name
  induction i using Nat.strongRecOn with
  | _ i ih =>
    rcases Nat.eq_zero_or_pos i with rfl | hpos
    · rw [Shape.reached_eq]
      exact List.mem_cons_self ..
    · obtain ⟨p, hlt, hparent, hmem⟩ := hcovers.parent i hpos hi
      have hp := ih p hlt (by omega) ((parse_titled src).2 i hi p hparent)
      refine hlaid.reached_child hp ?_
      rw [SyntaxTree.namedChildren, List.mem_filter]
      exact ⟨hmem, hnamed⟩

theorem pairwise_descendants (src : Source) :
    ((parse src).descendants (parse src).root).Pairwise fun i j => i < j ∧
      ((parse src).node i).startByte ≤ ((parse src).node j).startByte := by
  obtain ⟨done, hfits, hroot, hsize, hlaid⟩ := parse_placed src
  rw [hroot, hlaid.descendants_eq hsize]
  refine (List.Pairwise.and_mem.1 (Shape.pairwise_reached _ 0)).imp ?_
  rintro i j ⟨_, hj, hlt⟩
  have hin := (Shape.range_of_mem_reached hj).2
  exact ⟨hlt, (hlaid.starts hfits (Nat.zero_le i) (Nat.le_of_lt hlt) hin).2.1⟩

end Parsed
end ProjectIndex.Twig
