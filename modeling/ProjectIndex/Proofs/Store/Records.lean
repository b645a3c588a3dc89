import Mathlib.Data.List.Basic
import ProjectIndex.Store.Hashes

/-!
The hash table as a map from paths to records: what a save, a removal and a clearing do to the
record of a path, and which tables say the same up to the times of their records.
-/
namespace ProjectIndex

def TrackedFile.sansTime (f : TrackedFile) : Path × String := (f.path, f.contentHash)

namespace HashTable

theorem find?_new (p : Path) : new.find? p = none := rfl

theorem find?_put (files : List TrackedFile) (f : TrackedFile) (p : Path) :
    (put files f).find? (fun g => g.path == p) =
      if p = f.path then some f else files.find? fun g => g.path == p := by
  unfold put
  split
  · next hany =>
    have hpath : ((fun g : TrackedFile => g.path == p) ∘ fun g =>
        if g.path == f.path then f else g) = fun g => g.path == p := by
      funext g
      by_cases hg : g.path = f.path <;> simp [hg]
    rw [List.find?_map, hpath]
    cases hfind : files.find? (fun g => g.path == p) with
    | none =>
      rw [List.find?_eq_none] at hfind
      obtain ⟨g, hg, hgf⟩ := List.any_eq_true.1 hany
      have hp : p ≠ f.path := fun h => hfind g hg (by rw [h]; exact hgf)
      rw [if_neg hp, Option.map_none]
    | some g =>
      have hg : g.path = p := by simpa using List.find?_some hfind
      by_cases hp : p = f.path <;> simp [hg, hp]
  · next hnone =>
    rw [List.find?_append]
    by_cases hp : p = f.path
    · have hmiss : files.find? (fun g => g.path == p) = none := by
        rw [List.find?_eq_none]
        intro g hg hgp
        exact hnone (List.any_eq_true.2 ⟨g, hg, by rwa [← hp]⟩)
      rw [hmiss, if_pos hp, Option.none_or, List.find?_singleton, if_pos (by simp [hp])]
    · rw [if_neg hp, List.find?_singleton, if_neg (by simpa using Ne.symm hp), Option.or_none]

def record (h : HashTable) (f : TrackedFile) : HashTable := { h with files := put h.files f }

theorem find?_record (h : HashTable) (f : TrackedFile) (p : Path) :
    (h.record f).find? p = if p = f.path then some f else h.find? p := find?_put h.files f p

theorem foldl_record (h : HashTable) (fs : List TrackedFile) :
    fs.foldl record h = { h with files := fs.foldl put h.files } := by
  induction fs generalizing h with
  | nil => rfl
  | cons f fs ih => exact ih (h.record f)

theorem save_eq {h : HashTable} (hopen : h.closed = false) (fs : List TrackedFile) :
    h.save fs = .ok (fs.foldl record h) := by
  rw [foldl_record]
  unfold save
  cases fs with
  | nil => rfl
  | cons f fs => simp [whenOpen, hopen]

theorem find?_filter_path (files : List TrackedFile) (ps : List Path) (p : Path) :
    (files.filter fun f => !ps.contains f.path).find? (fun f => f.path == p) =
      if p ∈ ps then none else files.find? fun f => f.path == p := by
  rw [List.find?_filter]
  split
  · next hp =>
    rw [List.find?_eq_none]
    intro f _ hf
    have hpath : f.path = p := by simp_all
    simp [hpath, hp] at hf
  · next hp =>
    congr 1
    funext f
    by_cases hf : f.path = p <;> simp [hf, hp]

def without (h : HashTable) (ps : List Path) : HashTable :=
  { h with files := h.files.filter fun f => !ps.contains f.path }

theorem find?_without (h : HashTable) (ps : List Path) (p : Path) :
    (h.without ps).find? p = if p ∈ ps then none else h.find? p :=
  find?_filter_path h.files ps p

theorem remove_eq {h : HashTable} (hopen : h.closed = false) (ps : List Path) :
    h.remove ps = .ok (h.without ps) := by
  unfold remove
  cases ps with
  | nil => simp [without]
  | cons p ps => simp [whenOpen, hopen, without]

theorem clear_eq {h : HashTable} (hopen : h.closed = false) : h.clear = .ok new := by
  simp [clear, whenOpen, hopen, new]

theorem mem_paths_iff (h : HashTable) (p : Path) :
    p ∈ h.files.map TrackedFile.path ↔ (h.find? p).isSome := by
  rw [find?, List.find?_isSome, List.mem_map]
  simp only [beq_iff_eq]

theorem without_of_unrecorded {h : HashTable} {ps : List Path}
    (hps : ∀ p ∈ ps, h.find? p = none) : h.without ps = h := by
  have hkeep : h.files.filter (fun f => !ps.contains f.path) = h.files := by
    refine List.filter_eq_self.2 fun f hf => ?_
    have hrecord : (h.find? f.path).isSome = true :=
      (h.mem_paths_iff f.path).1 (List.mem_map_of_mem hf)
    simp only [Bool.not_eq_true', List.contains_eq_mem, decide_eq_false_iff_not]
    intro hmem
    rw [hps f.path hmem] at hrecord
    cases hrecord
  rw [without, hkeep]

/-- Two tables that say the same of every file, up to the times of their records. -/
structure Agree (h k : HashTable) : Prop where
  closed : h.closed = k.closed
  files : h.files.map TrackedFile.sansTime = k.files.map TrackedFile.sansTime

theorem map_sansTime_put (files : List TrackedFile) (f : TrackedFile) :
    (put files f).map TrackedFile.sansTime =
      if (files.map TrackedFile.sansTime).any (fun g => g.1 == f.path) then
        (files.map TrackedFile.sansTime).map fun g => if g.1 == f.path then f.sansTime else g
      else files.map TrackedFile.sansTime ++ [f.sansTime] := by
  have hany : (files.map TrackedFile.sansTime).any (fun g => g.1 == f.path) =
      files.any fun g => g.path == f.path := by
    rw [List.any_map]
    rfl
  rw [hany]
  unfold put
  split
  · rw [List.map_map, List.map_map]
    apply List.map_congr_left
    intro g _
    by_cases hg : g.path = f.path <;> simp [TrackedFile.sansTime, hg]
  · rw [List.map_append, List.map_singleton]

theorem map_sansTime_find? (h : HashTable) (p : Path) :
    (h.find? p).map TrackedFile.sansTime =
      (h.files.map TrackedFile.sansTime).find? fun g => g.1 == p := by
  rw [List.find?_map]
  rfl

namespace Agree

variable {h k : HashTable}

theorem find? (a : Agree h k) (p : Path) :
    (h.find? p).map TrackedFile.sansTime = (k.find? p).map TrackedFile.sansTime := by
  rw [map_sansTime_find?, map_sansTime_find?, a.files]

theorem isSome_find? (a : Agree h k) (p : Path) : (h.find? p).isSome = (k.find? p).isSome := by
  have hsome := congrArg Option.isSome (a.find? p)
  simpa only [Option.isSome_map] using hsome

theorem hashOf (a : Agree h k) (p : Path) : h.hashOf p = k.hashOf p := by
  have hhash : (h.find? p).map TrackedFile.contentHash =
      (k.find? p).map TrackedFile.contentHash := by
    have hpair := congrArg (Option.map Prod.snd) (a.find? p)
    rw [Option.map_map, Option.map_map] at hpair
    exact hpair
  unfold HashTable.hashOf whenOpen
  rw [hhash, a.closed]

theorem paths (a : Agree h k) : h.paths = k.paths := by
  have hpaths : h.files.map TrackedFile.path = k.files.map TrackedFile.path := by
    have hpair := congrArg (List.map Prod.fst) a.files
    rw [List.map_map, List.map_map] at hpair
    exact hpair
  unfold HashTable.paths whenOpen
  rw [hpaths, a.closed]

theorem record (a : Agree h k) {f g : TrackedFile} (hfg : f.sansTime = g.sansTime) :
    Agree (h.record f) (k.record g) := by
  have hpath : f.path = g.path := congrArg Prod.fst hfg
  refine ⟨a.closed, ?_⟩
  unfold HashTable.record
  rw [map_sansTime_put, map_sansTime_put, a.files, hfg, hpath]

theorem without (a : Agree h k) (ps : List Path) : Agree (h.without ps) (k.without ps) := by
  have hfilter : ∀ files : List TrackedFile,
      (files.filter fun f => !ps.contains f.path).map TrackedFile.sansTime =
        (files.map TrackedFile.sansTime).filter fun f => !ps.contains f.1 := by
    intro files
    rw [List.filter_map]
    rfl
  refine ⟨a.closed, ?_⟩
  unfold HashTable.without
  rw [hfilter, hfilter, a.files]

end Agree

end HashTable
end ProjectIndex
