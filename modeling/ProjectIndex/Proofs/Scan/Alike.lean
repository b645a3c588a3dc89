import ProjectIndex.Proofs.Scan.Steps

/-!
Scanners that differ only in the times of their records do the same: from the same files they make
the same calls, report the same and stay alike.
-/
namespace ProjectIndex

theorem HashTable.Agree.foldl_record {h k : HashTable} (a : h.Agree k) {fs gs : List TrackedFile}
    (hfg : fs.map TrackedFile.sansTime = gs.map TrackedFile.sansTime) :
    (fs.foldl HashTable.record h).Agree (gs.foldl HashTable.record k) := by
  induction fs generalizing h k gs with
  | nil =>
    obtain rfl := List.map_eq_nil_iff.1 hfg.symm
    exact a
  | cons f fs ih =>
    cases gs with
    | nil => cases hfg
    | cons g gs =>
      obtain ⟨hfirst, hrest⟩ := List.cons.inj hfg
      exact ih (a.record hfirst) hrest

namespace Scanner

variable {σ : Type}

/-- Two scanners that know the same, up to the times of their records. -/
structure Alike (s t : Scanner σ) : Prop extends s.SameProject t where
  isOpen : s.hashes.closed = false
  hashes : s.hashes.Agree t.hashes
  facts : t.facts = s.facts

namespace Alike

variable {s t : Scanner σ}

theorem isOpen_right (h : s.Alike t) : t.hashes.closed = false := h.hashes.closed ▸ h.isOpen

theorem prepare (h : s.Alike t) (files : FileTree) (p : Path) :
    t.prepare files p = s.prepare files p := by
  unfold Scanner.prepare
  rw [h.options, h.hashes.hashOf p]

theorem offer (h : s.Alike t) (env : Surroundings) (p : Path) (src : Source)
    (tree : Except Failure SyntaxTree) (facts : σ) :
    t.offer env p src tree facts = s.offer env p src tree facts := by
  unfold Scanner.offer
  rw [h.indexers]

end Alike

def SameOutcome (a b : Scanner σ × Except Failure ScanReport) : Prop :=
  ∃ s t answer, a = (s, answer) ∧ b = (t, answer) ∧ s.Alike t

structure Dispatch.Alike (d e : Dispatch σ) : Prop where
  facts : e.facts = d.facts
  report : e.report = d.report
  dropped : e.dropped = d.dropped
  tracked : d.tracked.map TrackedFile.sansTime = e.tracked.map TrackedFile.sansTime

namespace Alike

variable {s t : Scanner σ}

theorem dispatch (h : s.Alike t) (env : Surroundings) (now now' : Timestamp) {d e : Dispatch σ}
    (hd : d.Alike e) (file : Path × Prepared) :
    (s.dispatch env now d file).Alike (t.dispatch env now' e file) := by
  obtain ⟨p, prep⟩ := file
  unfold Scanner.dispatch
  cases prep with
  | changed hash src tree =>
    simp only [h.offer, hd.facts, hd.report]
    refine ⟨rfl, rfl, hd.dropped, ?_⟩
    rw [List.map_append, List.map_append, hd.tracked]
    rfl
  | oversized =>
    simp only [h.hashes.isSome_find? p, hd.report, hd.dropped]
    exact ⟨hd.facts, rfl, rfl, hd.tracked⟩
  | missing =>
    simp only [hd.report, hd.dropped]
    exact ⟨hd.facts, rfl, rfl, hd.tracked⟩
  | unchanged =>
    simp only [hd.report]
    exact ⟨hd.facts, rfl, hd.dropped, hd.tracked⟩
  | skipped =>
    simp only [hd.report]
    exact ⟨hd.facts, rfl, hd.dropped, hd.tracked⟩

theorem dispatched (h : s.Alike t) (env : Surroundings) (now now' : Timestamp) (ps : List Path)
    (r : ScanReport) : (s.dispatched env now ps r).Alike (t.dispatched env now' ps r) := by
  -- Files are compared with the records from before the chunk, and those say the same.
  have hprepared : t.prepared env.files ps = s.prepared env.files ps := by
    unfold prepared
    simp only [h.prepare]
  unfold Scanner.dispatched
  rw [hprepared]
  exact List.foldl_rel ⟨h.facts, rfl, rfl, rfl⟩ fun file _ _ _ hd => h.dispatch env now now' hd file

theorem recorded (h : s.Alike t) {d e : Dispatch σ} (hd : d.Alike e) :
    (s.recorded d).Alike (t.recorded e) where
  root := h.root
  options := h.options
  indexers := h.indexers
  closed := h.closed
  isOpen := by
    have hclosed := congrArg HashTable.closed (HashTable.foldl_record s.hashes d.tracked)
    exact hclosed.trans h.isOpen
  hashes := h.hashes.foldl_record hd.tracked
  facts := hd.facts

theorem dispatchRemoval (h : s.Alike t) (env : Surroundings) (ps : List Path) (r : ScanReport) :
    SameOutcome (s.dispatchRemoval env ps r) (t.dispatchRemoval env ps r) := by
  rw [dispatchRemoval_eq h.isOpen, dispatchRemoval_eq h.isOpen_right, discard, discard, h.facts,
    h.indexers]
  exact ⟨_, _, _, rfl, rfl, ⟨h.root, h.options, rfl, h.closed⟩, h.isOpen, h.hashes.without ps, rfl⟩

theorem processChunk (h : s.Alike t) (env : Surroundings) (now now' : Timestamp) (ps : List Path)
    (r : ScanReport) :
    SameOutcome (s.processChunk env now ps r) (t.processChunk env now' ps r) := by
  have hd := h.dispatched env now now' ps r
  rw [processChunk_eq_dispatched h.isOpen, processChunk_eq_dispatched h.isOpen_right, hd.dropped,
    hd.report]
  split
  · exact ⟨_, _, _, rfl, rfl, h.recorded hd⟩
  · exact (h.recorded hd).dispatchRemoval env _ _

theorem processChunks (env : Surroundings) (now now' : Timestamp) (cs : List (List Path))
    (h : s.Alike t) (r : ScanReport) :
    SameOutcome (Scanner.processChunks env now cs s r) (Scanner.processChunks env now' cs t r) := by
  induction cs generalizing s t r with
  | nil => exact ⟨_, _, _, rfl, rfl, h⟩
  | cons c cs ih =>
    obtain ⟨s₁, t₁, answer, hs, ht, halike⟩ := h.processChunk env now now' c r
    rw [Scanner.processChunks, Scanner.processChunks, hs, ht]
    cases answer with
    | ok r₁ => exact ih halike r₁
    | error e => exact ⟨_, _, _, rfl, rfl, halike⟩

theorem process (h : s.Alike t) (env : Surroundings) (now now' : Timestamp) (ps : List Path)
    (r : ScanReport) : SameOutcome (s.process env now ps r) (t.process env now' ps r) := by
  unfold Scanner.process
  rw [h.options]
  exact processChunks env now now' _ h r

theorem synchronize (h : s.Alike t) (env : Surroundings) (now now' : Timestamp) :
    SameOutcome (s.synchronize env now) (t.synchronize env now') := by
  unfold Scanner.synchronize
  rw [h.toSameProject.walk, h.hashes.paths]
  cases t.hashes.paths with
  | error e => exact ⟨_, _, _, rfl, rfl, h⟩
  | ok tracked =>
    dsimp only
    split
    · exact h.process env now now' _ _
    · obtain ⟨s₁, t₁, answer, hs, ht, halike⟩ :=
        h.dispatchRemoval env (goneFrom env.files tracked (s.walk env.files)) {}
      rw [hs, ht]
      cases answer with
      | ok r => exact halike.process env now now' _ r
      | error e => exact ⟨_, _, _, rfl, rfl, halike⟩

end Alike

end Scanner
end ProjectIndex
