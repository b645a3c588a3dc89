import Mathlib.Data.List.Forall2
import ProjectIndex.Domain.Templates.Indexer
import ProjectIndex.Proofs.Domain.Templates.Recorded
import ProjectIndex.Proofs.Grammar.Twig.Titles

/-!
The blocks in the record of a template, against its source. Each name that some block of the source
has is listed once, at the first block that has it, with the digest of the text from where that block
starts to where it ends; and the list follows the source.
-/
namespace ProjectIndex.Templates

open ProjectIndex.Text

section Firsts

variable {t : SyntaxTree} {src : Source}

def blockName? (t : SyntaxTree) (src : Source) (i : NodeId) : Option String :=
  (t.childOfKind? i "identifier").map (textString t src)

theorem block?_eq_some {i : NodeId} {b : TemplateBlock} (h : block? t src i = some b) :
    blockName? t src i = some b.name ∧ b.hash = Digest.sha256Text (t.text src i) := by
  obtain ⟨c, hc, rfl⟩ := Option.map_eq_some_iff.1 h
  exact ⟨by rw [blockName?, hc]; rfl, rfl⟩

/-- Of some nodes in ascending order, the blocks that are kept are those of the first nodes with
their names. -/
theorem exists_firsts (t : SyntaxTree) (src : Source) (is : List NodeId)
    (hsorted : is.Pairwise (· < ·)) :
    ∃ nodes : List NodeId, nodes.Sublist is ∧
      List.Forall₂ (fun i b => block? t src i = some b) nodes
        (distinctBlocks (is.filterMap (block? t src))) ∧
      ∀ j ∈ nodes, ∀ name, blockName? t src j = some name →
        ∀ k ∈ is, k < j → blockName? t src k ≠ some name := by
  induction is with
  | nil => exact ⟨[], .slnil, .nil, nofun⟩
  | cons i is ih =>
    obtain ⟨hi, hrest⟩ := List.pairwise_cons.1 hsorted
    obtain ⟨nodes, hsub, hall, hfirst⟩ := ih hrest
    cases hb : block? t src i with
    | none =>
      have hnone : blockName? t src i = none :=
        Option.map_eq_none_iff.2 (Option.map_eq_none_iff.1 hb)
      rw [List.filterMap_cons_none hb]
      refine ⟨nodes, hsub.cons i, hall, fun j hj name hname k hk hkj => ?_⟩
      rcases List.mem_cons.1 hk with rfl | hk
      · simp [hnone]
      · exact hfirst j hj name hname k hk hkj
    | some b =>
      have hsome : blockName? t src i = some b.name := (block?_eq_some hb).1
      -- The blocks kept behind this one are those with other names.
      rw [List.filterMap_cons_some hb, distinctBlocks]
      refine ⟨i :: nodes.filter fun j => blockName? t src j != some b.name, ?_, ?_, ?_⟩
      · exact (List.filter_sublist.trans hsub).cons_cons i
      · refine .cons hb (List.rel_filter (fun j c hjc => ?_) hall)
        simp [(block?_eq_some hjc).1]
      · intro j hj name hname k hk hkj
        rcases List.mem_cons.1 hj with rfl | hj
        · -- nothing stands in front of the first node
          rcases List.mem_cons.1 hk with rfl | hk
          · exact absurd hkj (Nat.lt_irrefl _)
          · exact absurd (hi k hk) (Nat.not_lt.2 (Nat.le_of_lt hkj))
        · obtain ⟨hj, hother⟩ := List.mem_filter.1 hj
          rcases List.mem_cons.1 hk with rfl | hk
          · rw [hname] at hother
            rw [hsome]
            exact fun heq => bne_iff_ne.1 hother heq.symm
          · exact hfirst j hj name hname k hk hkj

theorem nodup_names_distinctBlocks (bs : List TemplateBlock) :
    ((distinctBlocks bs).map TemplateBlock.name).Nodup := by
  induction bs with
  | nil => exact .nil
  | cons b bs ih =>
    rw [distinctBlocks, List.map_cons, List.nodup_cons]
    constructor
    · intro hmem
      obtain ⟨c, hc, hname⟩ := List.mem_map.1 hmem
      exact bne_iff_ne.1 (List.mem_filter.1 hc).2 hname
    · exact (List.filter_sublist.map TemplateBlock.name).nodup ih

theorem mem_names_distinctBlocks {bs : List TemplateBlock} {b : TemplateBlock} (h : b ∈ bs) :
    b.name ∈ (distinctBlocks bs).map TemplateBlock.name := by
  induction bs with
  | nil => cases h
  | cons c bs ih =>
    rw [distinctBlocks, List.map_cons, List.mem_cons]
    by_cases hname : b.name = c.name
    · exact .inl hname
    · right
      have hb : b ∈ bs := (List.mem_cons.1 h).resolve_left fun heq => hname (heq ▸ rfl)
      obtain ⟨d, hd, hdname⟩ := List.mem_map.1 (ih hb)
      refine List.mem_map.2 ⟨d, List.mem_filter.2 ⟨hd, ?_⟩, hdname⟩
      rw [hdname]
      exact bne_iff_ne.2 hname

end Firsts

section Record

variable {src : Source} {i : NodeId} {b : TemplateBlock}

theorem lt_of_mem_descendants
    (h : i ∈ (Twig.parse src).descendants (Twig.parse src).root) : i < (Twig.parse src).size := by
  obtain ⟨done, _, hroot, hsize, hlaid⟩ := Twig.parse_placed src
  rw [hroot, hlaid.descendants_eq hsize] at h
  rw [hsize, ← Nat.zero_add (Shape.size _)]
  exact (Shape.range_of_mem_reached h).2

theorem mem_findAll_namedBlock :
    i ∈ namedBlock.findAll (Twig.parse src) src (Twig.parse src).root ↔
      i < (Twig.parse src).size ∧ (Twig.parse src).kind i = "block" ∧
        (blockName? (Twig.parse src) src i).isSome = true := by
  obtain ⟨_, _, _, _, _, _, _, hcovers⟩ := Twig.parse_safe src
  rw [Pattern.findAll, List.mem_filter, namedBlock_matches, Bool.and_eq_true, beq_iff_eq,
    List.any_eq_true, blockName?, Option.isSome_map, SyntaxTree.childOfKind?, List.find?_isSome]
  constructor
  · rintro ⟨hmem, hkind, c, hc, hname⟩
    exact ⟨lt_of_mem_descendants hmem, hkind, c, (List.mem_filter.1 hc).1, hname⟩
  · rintro ⟨hi, hkind, c, hc, hname⟩
    have hnamed : (Twig.parse src).isNamed i = true :=
      Twig.isNamed_of_ne hi (by rw [hkind]; decide)
    have hchild : (Twig.parse src).isNamed c = true :=
      Twig.isNamed_of_ne (hcovers.child i c hi hc).2.1 (by rw [beq_iff_eq.1 hname]; decide)
    exact ⟨Twig.mem_descendants hi hnamed, hkind, c, List.mem_filter.2 ⟨hc, hchild⟩, hname⟩

/-- The first node that opens a block under a name, and the block that is recorded of it. -/
structure Describes (t : SyntaxTree) (src : Source) (i : NodeId) (b : TemplateBlock) : Prop where
  inside : i < t.size
  kind : t.kind i = "block"
  name : blockName? t src i = some b.name
  first : ∀ j < i, t.kind j = "block" → blockName? t src j ≠ some b.name
  hash : ∃ before text after, src = before ++ text ++ after ∧
    byteLength before = (t.node i).startByte ∧ byteLength (before ++ text) = (t.node i).endByte ∧
    b.hash = Digest.sha256Text text

theorem describes_of_block?
    (hmem : i ∈ namedBlock.findAll (Twig.parse src) src (Twig.parse src).root)
    (hblock : block? (Twig.parse src) src i = some b)
    (hfirst : ∀ k ∈ namedBlock.findAll (Twig.parse src) src (Twig.parse src).root, k < i →
      blockName? (Twig.parse src) src k ≠ some b.name) :
    Describes (Twig.parse src) src i b := by
  obtain ⟨_, _, _, _, _, _, _, hcovers⟩ := Twig.parse_safe src
  obtain ⟨hi, hkind, _⟩ := mem_findAll_namedBlock.1 hmem
  obtain ⟨hname, hhash⟩ := block?_eq_some hblock
  refine ⟨hi, hkind, hname, fun j hj hjkind hjname => ?_, ?_⟩
  · have hfound := mem_findAll_namedBlock.2 ⟨Nat.lt_trans hj hi, hjkind, by rw [hjname]; rfl⟩
    exact hfirst j hfound hj hjname
  · obtain ⟨before, after, hsplit, hbefore, hend⟩ := hcovers.whole i hi
    exact ⟨before, _, after, hsplit, hbefore, hend, hhash⟩

/-- The record of a template lists the names of the blocks in its source, each once, by the first
block under it, and in the order in which these blocks start. -/
theorem blocks_record (src : Source) (p : Path) :
    let t := Twig.parse src
    let blocks := (record t src p).blocks
    (∃ nodes : List NodeId, List.Forall₂ (Describes t src) nodes blocks ∧
      nodes.Pairwise fun i j => i < j ∧ (t.node i).startByte ≤ (t.node j).startByte) ∧
    (blocks.map TemplateBlock.name).Nodup ∧
    ∀ i name, i < t.size → t.kind i = "block" → blockName? t src i = some name →
      name ∈ blocks.map TemplateBlock.name := by
  intro t blocks
  have hordered := (Twig.pairwise_descendants src).filter (namedBlock.matchesNode t src)
  refine ⟨?_, nodup_names_distinctBlocks _, fun i name hi hkind hname => ?_⟩
  · obtain ⟨nodes, hsub, hall, hfirst⟩ :=
      exists_firsts t src _ (hordered.imp And.left)
    refine ⟨nodes, ?_, hordered.sublist hsub⟩
    refine (List.forall₂_and_left nodes _).2 ⟨fun _ hj => hj, hall⟩ |>.imp ?_
    rintro j b ⟨hj, hblock⟩
    exact describes_of_block? (hsub.subset hj) hblock
      (hfirst j hj b.name (block?_eq_some hblock).1)
  · have hfound : i ∈ namedBlock.findAll t src t.root :=
      mem_findAll_namedBlock.2 ⟨hi, hkind, by rw [hname]; rfl⟩
    obtain ⟨c, hc, hcname⟩ := Option.map_eq_some_iff.1 hname
    have hblock : block? t src i = some ⟨name, t.line c, Digest.sha256Text (t.text src i),
        markerBefore t src t.size i⟩ := by
      rw [block?, hc, ← hcname]
      rfl
    exact mem_names_distinctBlocks (List.mem_filterMap.2 ⟨i, hfound, hblock⟩)

end Record
end ProjectIndex.Templates
