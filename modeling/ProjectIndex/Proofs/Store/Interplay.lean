import ProjectIndex.Proofs.Store.Positions

/-!
How saves and deletions act on one another. Deleting files commutes with saving another file, to the
place of every row.
-/
namespace ProjectIndex.Rows

variable {α : Type} {rows : List (Row α)} {file : Path} {ps : List Path}

theorem deleteFiles_upsert (hfile : file ∉ ps) (rows : List (Row α)) (fact : String × α) :
    deleteFiles (upsert file rows fact) ps = upsert file (deleteFiles rows ps) fact := by
  have hkept : ∀ r : Row α, r.isAt file fact.1 = true → r.file ∉ ps := by
    intro r hr
    have hat : r.file = file ∧ r.key = fact.1 := by simpa [Row.isAt] using hr
    rwa [hat.1]
  have hany : (deleteFiles rows ps).any (fun r => r.isAt file fact.1) =
      rows.any fun r => r.isAt file fact.1 := by
    rw [deleteFiles, List.any_filter]
    congr 1
    funext r
    by_cases hr : r.isAt file fact.1 = true
    · simp [hr, hkept r hr]
    · simp [hr]
  unfold upsert
  rw [hany]
  split
  · unfold deleteFiles
    exact filter_map_value (fun g => !ps.contains g) _ (fun r => by split <;> rfl) rows
  · simp [deleteFiles, hfile]

theorem deleteFiles_surviving (hfile : file ∉ ps) (rows : List (Row α)) (keys : List String) :
    deleteFiles (surviving file rows keys) ps = surviving file (deleteFiles rows ps) keys := by
  have hown : ofFile file (deleteFiles rows ps) = ofFile file rows := by
    rw [ofFile_deleteFiles, if_neg hfile]
  have horder : keepsOrder file (deleteFiles rows ps) keys = keepsOrder file rows keys := by
    unfold keepsOrder
    rw [hown]
  unfold surviving deleteFiles at *
  rw [horder]
  split <;> simp only [List.filter_filter, Bool.and_comm]

theorem deleteFiles_foldl_upsert (hfile : file ∉ ps) (rows : List (Row α)) (facts : FileFacts α) :
    deleteFiles (facts.foldl (upsert file) rows) ps =
      facts.foldl (upsert file) (deleteFiles rows ps) := by
  induction facts generalizing rows with
  | nil => rfl
  | cons fact facts ih => rw [List.foldl_cons, ih, deleteFiles_upsert hfile, List.foldl_cons]

/-- Deleting some files and saving another can change places, whatever the save has to move. -/
theorem deleteFiles_saveFile (hfile : file ∉ ps) (rows : List (Row α)) (facts : FileFacts α) :
    deleteFiles (saveFile rows file facts) ps = saveFile (deleteFiles rows ps) file facts := by
  unfold saveFile
  rw [deleteFiles_foldl_upsert hfile, deleteFiles_surviving hfile]

theorem deleteFiles_deleteFiles (rows : List (Row α)) (ps qs : List Path) :
    deleteFiles (deleteFiles rows ps) qs = deleteFiles rows (ps ++ qs) := by
  unfold deleteFiles
  rw [List.filter_filter]
  apply List.filter_congr
  intro r _
  simp [Bool.and_comm]

theorem deleteFiles_congr {qs : List Path} (h : ∀ r ∈ rows, r.file ∈ ps ↔ r.file ∈ qs) :
    deleteFiles rows ps = deleteFiles rows qs := by
  apply List.filter_congr
  intro r hr
  have hiff := h r hr
  by_cases hp : r.file ∈ ps
  · simp [hp, hiff.1 hp]
  · simp [hp, mt hiff.2 hp]

theorem deleteFiles_twice (rows : List (Row α)) (ps : List Path) :
    deleteFiles (deleteFiles rows ps) ps = deleteFiles rows ps := by
  simp [deleteFiles, List.filter_filter]

theorem deleteFiles_eq_self (h : ∀ r ∈ rows, r.file ∉ ps) : deleteFiles rows ps = rows :=
  List.filter_eq_self.2 fun r hr => by simp [h r hr]

end ProjectIndex.Rows
