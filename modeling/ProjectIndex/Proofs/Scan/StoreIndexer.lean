import ProjectIndex.Domain.Stores
import ProjectIndex.Proofs.Scan.Registry
import ProjectIndex.Proofs.Store.Replace

/-!
An indexer on one store meets the contract of registered indexers, as long as its store is open and
what it takes from a file, when it takes anything, depends on the path and the source alone.
-/
namespace ProjectIndex

namespace FactStore

variable {α : Type}

/-- The registry of one indexer on one store. A file owns its rows. -/
def registry (id : String) (accepts : Path → Bool)
    (extract : FileTree → Path → SyntaxTree → Source → Except Failure (FileFacts α))
    (facts : Path → SyntaxTree → Source → FileFacts α) : Registry (FactStore α) where
  Slot := Unit
  order := [()]
  indexer _ := FactStore.indexer id accepts extract
  Fact _ := Row α
  held _ s p := Rows.ofFile p s.rows
  extract _ p src :=
    match parsePath p src with
    | .ok tree => Rows.ofFacts p (facts p tree src)
    | .error _ => []
  sound s := s.closed = false

variable {id : String} {accepts : Path → Bool}
  {extract : FileTree → Path → SyntaxTree → Source → Except Failure (FileFacts α)}
  {facts : Path → SyntaxTree → Source → FileFacts α}

theorem index_eq (env : Surroundings) (p : Path) (tree : SyntaxTree) (src : Source)
    {s : FactStore α} (hopen : s.closed = false) :
    ((FactStore.indexer id accepts extract).index env p tree src s).1 = s ∧
        (accepts p → ((FactStore.indexer id accepts extract).index env p tree src s).2 ≠ none) ∨
      ∃ fs, extract env.files p tree src = .ok fs ∧
        (FactStore.indexer id accepts extract).index env p tree src s =
          ({ s with rows := Rows.saveFile s.rows p fs }, none) := by
  unfold FactStore.indexer
  by_cases hacc : accepts p
  · simp only [if_pos hacc]
    cases hextract : extract env.files p tree src with
    | ok fs =>
      refine .inr ⟨fs, rfl, ?_⟩
      simp only [save_eq hopen, Outcome.ofExcept, List.foldl_cons, List.foldl_nil]
    | error e => exact .inl ⟨rfl, fun _ h => nomatch h⟩
  · simp only [if_neg hacc]
    exact .inl ⟨trivial, fun h => absurd h hacc⟩

theorem registry_replaces
    (hfacts : ∀ files p tree src fs, extract files p tree src = .ok fs → fs = facts p tree src) :
    (registry id accepts extract facts).Replaces where
  sound i env p tree src s hs := by
    change ((FactStore.indexer id accepts extract).index env p tree src s).1.closed = false
    rcases index_eq env p tree src hs with ⟨hsame, _⟩ | ⟨fs, _, hindex⟩
    · rw [hsame]
      exact hs
    · rw [hindex]
      exact hs
  frame i env p tree src s hs j q hjq := by
    have hqp : q ≠ p := hjq.resolve_left fun h => h rfl
    change Rows.ofFile q ((FactStore.indexer id accepts extract).index env p tree src s).1.rows = _
    rcases index_eq env p tree src hs with ⟨hsame, _⟩ | ⟨fs, _, hindex⟩
    · rw [hsame]
      rfl
    · rw [hindex]
      exact Rows.ofFile_saveFile_of_ne hqp s.rows fs
  held i env p tree src s hs hacc htree hnone := by
    have htaken : (registry id accepts extract facts).extract i p src =
        Rows.ofFacts p (facts p tree src) := by
      simp only [registry, htree]
    change Rows.ofFile p ((FactStore.indexer id accepts extract).index env p tree src s).1.rows = _
    rcases index_eq env p tree src hs with ⟨_, hfails⟩ | ⟨fs, hextract, hindex⟩
    · exact absurd hnone (hfails hacc)
    · rw [hindex, htaken, ← hfacts _ _ _ _ fs hextract]
      exact Rows.ofFile_saveFile s.rows p fs
  unparsed i p src e herror := by simp only [registry, herror]

theorem removed_eq (env : Surroundings) (ps : List Path) {s : FactStore α}
    (hopen : s.closed = false) :
    (FactStore.indexer id accepts extract).removed env ps s =
      ({ s with rows := Rows.deleteFiles s.rows ps }, none) := by
  simp only [FactStore.indexer, deleteFiles_eq hopen, Outcome.ofExcept]

theorem cleared_eq (env : Surroundings) {s : FactStore α} (hopen : s.closed = false) :
    (FactStore.indexer id accepts extract).clear env s = ({ s with rows := [] }, none) := by
  simp only [FactStore.indexer, clear_eq hopen, Outcome.ofExcept]

theorem registry_drops : (registry id accepts extract facts).Drops where
  removed_sound i env ps s hs := by
    change ((FactStore.indexer id accepts extract).removed env ps s).1.closed = false
    rw [removed_eq env ps hs]
    exact hs
  removed_ok i env ps s hs := congrArg Prod.snd (removed_eq env ps hs)
  removed_frame i env ps s hs j q hq := by
    have hq' : q ∉ ps := hq.resolve_left fun h => h rfl
    change Rows.ofFile q ((FactStore.indexer id accepts extract).removed env ps s).1.rows = _
    rw [removed_eq env ps hs]
    exact (Rows.ofFile_deleteFiles q s.rows ps).trans (if_neg hq')
  removed_held i env ps s hs q hq := by
    change Rows.ofFile q ((FactStore.indexer id accepts extract).removed env ps s).1.rows = _
    rw [removed_eq env ps hs]
    exact (Rows.ofFile_deleteFiles q s.rows ps).trans (if_pos hq)
  clear_sound i env s hs := by
    change ((FactStore.indexer id accepts extract).clear env s).1.closed = false
    rw [cleared_eq env hs]
    exact hs
  clear_ok i env s hs := congrArg Prod.snd (cleared_eq env hs)
  clear_frame i env s hs j q hj := absurd rfl hj
  clear_held i env s hs q := by
    change Rows.ofFile q ((FactStore.indexer id accepts extract).clear env s).1.rows = _
    rw [cleared_eq env hs]
    rfl

end FactStore
end ProjectIndex
