import ProjectIndex.Proofs.Engine.Scribes
import ProjectIndex.Proofs.Scan.Keepers

/-!
The indexers of a project are keepers. A scribe saves nothing but rows of the file it is given, and
its removals do not fail while its stores are open. Giving up the stores leaves their rows.
-/
namespace ProjectIndex

namespace Scribe

variable {σ : Type} {V : Shelf σ}

def Closes (w : Scribe V) : Prop :=
  ∀ env s k, V.rows k (w.indexer.close env s).1 = V.rows k s

def keeper (w : Scribe V) (hclears : w.Clears) (hcloses : w.Closes) : Keeper V fun _ => True where
  indexer := w.indexer
  owns := w.owns
  index_carries env p tree src s hopen haccepts htree := by
    refine ⟨fun k => ?_, fun _ => trivial⟩
    rw [w.index_store env p tree src s hopen haccepts htree]
    split
    · exact (FactStore.closed_taking _ p _).trans (hopen k)
    · exact hopen k
  index_rows env p tree src s hopen haccepts htree k r hr := by
    rw [Shelf.rows, w.index_store env p tree src s hopen haccepts htree] at hr
    split at hr
    · exact (FactStore.file_of_mem_taking hr).symm
    · exact .inl hr
  removed_carries env ps s hopen := by
    refine ⟨fun k => ?_, fun _ => trivial⟩
    rw [w.removed_store env ps s hopen]
    split <;> exact hopen k
  removed_intact env ps s hopen _ := w.removed_ok env ps s hopen
  removed_rows env ps s hopen k := by
    rw [Shelf.rows, w.removed_store env ps s hopen]
    split
    · next hk => exact .inr ⟨hk, rfl⟩
    · exact .inl rfl
  removed_ok env ps s hopen _ k hk := by
    rw [Shelf.rows, w.removed_store env ps s hopen, if_pos hk]
    rfl
  clear_carries env s hopen := ⟨hclears.isOpen env hopen, fun _ => trivial⟩
  clear_rows env s hopen k :=
    (hclears env s hopen k).1.imp (congrArg FactStore.rows) (congrArg FactStore.rows)
  clear_ok env s hopen hnone k hk :=
    congrArg FactStore.rows ((hclears env s hopen k).2 hnone hk)
  close_rows := hcloses

end Scribe

theorem FactStore.scribe_closes {α : Type} {id : String} {accepts : Path → Bool}
    {extract : FileTree → Path → SyntaxTree → Source → Except Failure (FileFacts α)} :
    (FactStore.scribe id accepts extract).Closes := fun _ _ _ => rfl

theorem StorePair.scribe_closes {α β : Type} {id : String} {accepts : Path → Bool}
    {save : FileTree → Path → SyntaxTree → Source → StorePair α β → Outcome (StorePair α β)}
    {takes : FileTree → Path → SyntaxTree → Source → Option (FileFacts α) × Option (FileFacts β)}
    (hsave : ∀ files p tree src s, s.IsOpen →
      save files p tree src s = (s.taking p (takes files p tree src), none)) :
    (StorePair.scribe id accepts save takes hsave).Closes := by
  intro env s k
  cases k <;> rfl

theorem Parts.scribe_closes {σ : Type} {P : Parts σ} {i : P.Part} {w : Scribe (P.shelf i)}
    (hw : w.Closes) : (P.scribe i w).Closes := by
  rintro env t ⟨j, k⟩
  by_cases hj : j = i
  · subst hj
    have hstore := P.store_lift (w.indexer.close env (P.get j t)) t k
    exact (congrArg FactStore.rows hstore).trans (hw env (P.get j t) k)
  · exact congrArg FactStore.rows (P.store_lift_of_ne (w.indexer.close env (P.get i t)) t hj k)

namespace Facts

theorem scribes_close : ∀ w ∈ scribes, w.Closes := by
  simp only [scribes, List.forall_mem_cons]
  refine ⟨?_, ?_, ?_, ?_, ?_, ?_, ?_, List.forall_mem_nil _⟩
  · exact Parts.scribe_closes (StorePair.scribe_closes _)
  · exact Parts.scribe_closes (StorePair.scribe_closes _)
  · exact Parts.scribe_closes (StorePair.scribe_closes _)
  · exact Parts.scribe_closes (StorePair.scribe_closes _)
  · exact Parts.scribe_closes FactStore.scribe_closes
  · exact Parts.scribe_closes FactStore.scribe_closes
  · exact Parts.scribe_closes FactStore.scribe_closes

def keepers : List (Keeper parts.whole fun _ => True) :=
  scribes.attach.map fun w => w.1.keeper (scribes_clear w.1 w.2) (scribes_close w.1 w.2)

theorem map_indexer_keepers : keepers.map Keeper.indexer = indexers := by
  rw [keepers, List.map_map, ← map_indexer_scribes]
  exact @List.attach_map_val _ _ scribes Scribe.indexer

end Facts
end ProjectIndex
