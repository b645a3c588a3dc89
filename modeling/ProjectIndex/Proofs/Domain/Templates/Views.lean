import ProjectIndex.Proofs.Domain.Pairs
import ProjectIndex.Proofs.Domain.Templates.Inventory

/-!
The store of templates and the store of blocks are two views of the same files. Whatever an indexer
of templates was asked to do, each file that it holds has one row in the first, its record, and in
the second the rows of the blocks in that record.
-/
namespace ProjectIndex

namespace Rows

variable {α : Type}

theorem eraseDups_of_nodup {l : List String} (h : l.Nodup) : l.eraseDups = l := by
  induction l with
  | nil => rfl
  | cons a l ih =>
    obtain ⟨ha, hl⟩ := List.nodup_cons.1 h
    have hkeep : l.filter (fun b => !b == a) = l :=
      List.filter_eq_self.2 fun b hb => by
        have hne : b ≠ a := fun heq => ha (heq ▸ hb)
        simp [hne]
    rw [List.eraseDups_cons, hkeep, ih hl]

theorem lastValue?_of_nodup {facts : FileFacts α} (h : (facts.map Prod.fst).Nodup)
    {fact : String × α} (hfact : fact ∈ facts) : lastValue? facts fact.1 = some fact.2 := by
  induction facts using List.reverseRecOn with
  | nil => cases hfact
  | append_singleton facts last ih =>
    rw [List.map_append, List.map_singleton, List.nodup_append] at h
    obtain ⟨hfacts, _, hapart⟩ := h
    rw [lastValue?_append]
    rcases List.mem_append.1 hfact with hold | hlast
    · have hne : fact.1 ≠ last.1 :=
        hapart _ (List.mem_map_of_mem hold) _ (List.mem_singleton_self _)
      rw [if_neg hne]
      exact ih hfacts hold
    · obtain rfl := List.mem_singleton.1 hlast
      exact if_pos rfl

theorem ofFacts_of_nodup (file : Path) {facts : FileFacts α} (h : (facts.map Prod.fst).Nodup) :
    ofFacts file facts = facts.map fun fact => ⟨file, fact.1, fact.2⟩ := by
  rw [ofFacts, distinctKeys, eraseDups_of_nodup h, List.filterMap_map, ← List.filterMap_eq_map]
  refine List.filterMap_congr fun fact hfact => ?_
  change (lastValue? facts fact.1).map (Row.mk file fact.1) = _
  rw [lastValue?_of_nodup h hfact]
  rfl

end Rows

namespace Templates

/-- The indexer of templates, which holds a file by its source. -/
def pairIndexer : PairIndexer TemplateFile BlockHash Source where
  toIndexer := indexer
  parse := Twig.parse
  empty := emptyStores
  reading _ src := src
  facts p src := extract p (Twig.parse src) src
  holds_empty := ⟨FactStore.holds_new "templates", FactStore.holds_new "blocks"⟩
  index_eq _ _ _ _ := rfl
  removed_eq _ _ _ := rfl
  clear_eq _ _ := rfl

theorem rows_of_holds {s : TemplateStores} {latest : Path → Option Source}
    (h : s.Holds fun g => pairIndexer.factsOf g (latest g)) {p : Path} {src : Source}
    (hlatest : latest p = some src) :
    let f := record (Twig.parse src) src p
    Rows.ofFile p s.first.rows = [⟨p, f.relativePath, f⟩] ∧
      Rows.ofFile p s.second.rows = f.blocks.map fun b =>
        ⟨p, b.name, ⟨b.name, f.relativePath, f.path, b.hash, b.line⟩⟩ := by
  intro f
  have hfirst := h.first.rows p
  have hsecond := h.second.rows p
  -- The names of the blocks are their keys, so that no row replaces another.
  have hkeys : ((blockFacts f).map Prod.fst).Nodup := by
    rw [blockFacts, List.map_map]
    exact (blocks_record src p).2.1
  simp only [hlatest] at hfirst hsecond
  refine ⟨hfirst.trans (Rows.ofFacts_of_nodup p (List.nodup_singleton f.relativePath)),
    hsecond.trans ?_⟩
  change Rows.ofFacts p (blockFacts f) = _
  rw [Rows.ofFacts_of_nodup p hkeys, blockFacts, List.map_map]
  rfl

/-- Whatever the indexer of templates was asked to do, its next call succeeds, and its two stores
show the same files: of a file that is held, the store of templates has its record, and the store of
blocks has what that record lists, which are the blocks of the source, each name once, by the first
block under it, in the order of the source and with the digest of the block's text. -/
theorem stores_mirror_sources (calls : List (Surroundings × Call)) (p : Path) :
    let s := pairIndexer.storesAfter calls
    (∀ env c, (pairIndexer.make env c s).2 = none) ∧
    match pairIndexer.latestAfter calls p with
    | none => Rows.ofFile p s.first.rows = [] ∧ Rows.ofFile p s.second.rows = []
    | some src =>
      let t := Twig.parse src
      let f := record t src p
      accepts p = true ∧ Rows.ofFile p s.first.rows = [⟨p, f.relativePath, f⟩] ∧
      Rows.ofFile p s.second.rows = (f.blocks.map fun b =>
        ⟨p, b.name, ⟨b.name, f.relativePath, f.path, b.hash, b.line⟩⟩) ∧
      (f.blocks.map TemplateBlock.name).Nodup ∧
      (∃ nodes : List NodeId, List.Forall₂ (Describes t src) nodes f.blocks ∧
        nodes.Pairwise fun i j => i < j ∧ (t.node i).startByte ≤ (t.node j).startByte) ∧
      ∀ i name, i < t.size → t.kind i = "block" → blockName? t src i = some name →
        name ∈ f.blocks.map TemplateBlock.name := by
  intro s
  have hholds : s.Holds fun g => pairIndexer.factsOf g (pairIndexer.latestAfter calls g) :=
    pairIndexer.holds_storesAfter calls
  refine ⟨fun env c => (pairIndexer.holds_make hholds env c).1, ?_⟩
  cases hlatest : pairIndexer.latestAfter calls p with
  | none =>
    have hfirst := hholds.first.rows p
    have hsecond := hholds.second.rows p
    simp only [hlatest] at hfirst hsecond
    exact ⟨hfirst, hsecond⟩
  | some src =>
    obtain ⟨hnodes, hnodup, hall⟩ := blocks_record src p
    obtain ⟨hfirst, hsecond⟩ := rows_of_holds hholds hlatest
    exact ⟨pairIndexer.accepts_of_latestAfter calls hlatest, hfirst, hsecond, hnodup, hnodes, hall⟩

end Templates
end ProjectIndex
