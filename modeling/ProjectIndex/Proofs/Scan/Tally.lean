import ProjectIndex.Proofs.Scan.Ledger

/-!
What a scan reports. The report is the sum of what each file accounts for, and that is decided by
the record of the file from before the scan, so that it does not matter where the chunks end.
-/
namespace ProjectIndex

namespace ScanReport

def plus (r r' : ScanReport) : ScanReport where
  seen := r.seen + r'.seen
  indexed := r.indexed + r'.indexed
  unchanged := r.unchanged + r'.unchanged
  removed := r.removed + r'.removed
  skipped := r.skipped + r'.skipped
  failed := r.failed + r'.failed

theorem plus_assoc (a b c : ScanReport) : (a.plus b).plus c = a.plus (b.plus c) := by
  simp only [plus, Nat.add_assoc]

theorem empty_plus (r : ScanReport) : plus {} r = r := by
  simp only [plus, Nat.zero_add]

end ScanReport

variable {σ : Type} {V : Shelf σ} {W : List (Scribe V)}

namespace Ledger

section

variable (W : List (Scribe V)) (max : Nat) (files : FileTree) (l : Ledger V)

/-- What a scan reports of one file. -/
def account (p : Path) : ScanReport :=
  match files.find p with
  | .error .notFound => { seen := 1, removed := 1 }
  | .ok (.file bytes) =>
    if max < bytes.length then
      { seen := 1, skipped := 1, removed := if (l.digest? p).isSome then 1 else 0 }
    else if l.digest? p = some (Digest.sha256 bytes) then { seen := 1, unchanged := 1 }
    else
      { seen := 1, indexed := 1, failed := Scribe.missCount W files p (Text.decodeLossy bytes) }
  | _ => { seen := 1, skipped := 1 }

def tally : List Path → ScanReport
  | [] => {}
  | p :: ps => (l.account W max files p).plus (tally ps)

end

variable {max : Nat} {files : FileTree}

theorem account_congr {l l' : Ledger V} {p : Path} (h : l.digest? p = l'.digest? p) :
    l.account W max files p = l'.account W max files p := by
  unfold account
  rw [h]

theorem tally_congr {l l' : Ledger V} {ps : List Path} (h : ∀ p ∈ ps, l.digest? p = l'.digest? p) :
    l.tally W max files ps = l'.tally W max files ps := by
  induction ps with
  | nil => rfl
  | cons p ps ih =>
    rw [tally, tally, account_congr (h p (List.mem_cons_self ..)),
      ih fun q hq => h q (List.mem_cons_of_mem _ hq)]

theorem tally_append (l : Ledger V) (ps qs : List Path) :
    l.tally W max files (ps ++ qs) = (l.tally W max files ps).plus (l.tally W max files qs) := by
  induction ps with
  | nil => exact (ScanReport.empty_plus _).symm
  | cons p ps ih => rw [List.cons_append, tally, ih, tally, ScanReport.plus_assoc]

theorem digest?_scan {l : Ledger V} {ps : List Path} {q : Path} (hq : q ∉ ps) :
    (l.scan max files W ps).digest? q = l.digest? q := by
  have hexits : q ∉ l.exits max files ps := fun hmem => hq (List.mem_of_mem_filter hmem)
  rw [scan, digest?_strike, if_neg hexits]
  apply digest?_foldl_enter
  rintro f hf rfl
  exact hq (mem_entries.1 hf).1

end Ledger

namespace Scanner

def Dispatch.total (d : Dispatch σ) : ScanReport :=
  { d.report with removed := d.report.removed + d.dropped.length }

variable {s : Scanner σ}

theorem Employs.total_dispatch (h : s.Employs W) (env : Surroundings) (now : Timestamp)
    {d : Dispatch σ} (hd : V.IsOpen d.facts) (p : Path) :
    let d' := s.dispatch env now d (p, s.prepare env.files p)
    V.IsOpen d'.facts ∧ d'.total =
      d.total.plus ((s.ledger V).account W s.options.maxFileSize env.files p) := by
  have hrecord : (s.hashes.find? p).isSome = ((s.ledger V).digest? p).isSome := by
    rw [digest?_ledger, HashTable.digest?, Option.isSome_map]
  unfold prepare Ledger.account
  rw [HashTable.hashOf_eq h.isOpen, ← digest?_ledger (V := V)]
  cases env.files.find p with
  | error cause =>
    cases cause <;> exact ⟨hd, by simp [dispatch, Dispatch.total, ScanReport.plus, Nat.add_assoc]⟩
  | ok e =>
    cases e with
    | link target => exact ⟨hd, rfl⟩
    | dir entries => exact ⟨hd, rfl⟩
    | file bytes =>
      dsimp only
      by_cases hlarge : s.options.maxFileSize < bytes.length
      · rw [if_pos hlarge, if_pos hlarge]
        refine ⟨hd, ?_⟩
        unfold dispatch Dispatch.total ScanReport.plus
        rw [hrecord]
        cases ((s.ledger V).digest? p).isSome <;> simp [Nat.add_assoc]
      · rw [if_neg hlarge, if_neg hlarge]
        by_cases hsame : (s.ledger V).digest? p = some (Digest.sha256 bytes)
        · rw [if_pos (by simp [Except.toOption, hsame]), if_pos hsame]
          exact ⟨hd, rfl⟩
        · rw [if_neg (by simpa [Except.toOption] using hsame), if_neg hsame]
          obtain ⟨hopen, _, hmissed⟩ :=
            Scribe.offer_store h.indexers env p (Text.decodeLossy bytes) hd
          refine ⟨hopen, ?_⟩
          rw [← hmissed]
          rfl

theorem Employs.total_foldl_dispatch (h : s.Employs W) (env : Surroundings) (now : Timestamp)
    (ps : List Path) {d : Dispatch σ} (hd : V.IsOpen d.facts) :
    ((s.prepared env.files ps).foldl (s.dispatch env now) d).total =
      d.total.plus ((s.ledger V).tally W s.options.maxFileSize env.files ps) := by
  unfold prepared
  induction ps generalizing d with
  | nil => rfl
  | cons p ps ih =>
    obtain ⟨hopen, htotal⟩ := h.total_dispatch env now hd p
    rw [List.map_cons, List.foldl_cons, ih hopen, htotal, ScanReport.plus_assoc]
    rfl

theorem Employs.total_dispatched (h : s.Employs W) (env : Surroundings) (now : Timestamp)
    (ps : List Path) (r : ScanReport) :
    (s.dispatched env now ps r).total =
      r.plus ((s.ledger V).tally W s.options.maxFileSize env.files ps) :=
  h.total_foldl_dispatch env now ps h.stores

theorem Employs.dispatchRemoval (h : s.Employs W) (env : Surroundings) (ps : List Path)
    (r : ScanReport) :
    s.dispatchRemoval env ps r =
      (s.discard env ps, .ok { r with removed := r.removed + ps.length }) := by
  obtain ⟨_, _, hnone⟩ := Scribe.removed_store_all W env ps h.stores
  rw [dispatchRemoval_eq h.isOpen, h.indexers, hnone]
  rfl

theorem Employs.processChunk (h : s.Employs W) (env : Surroundings) (now : Timestamp)
    (ps : List Path) (r : ScanReport) :
    s.processChunk env now ps r = (s.afterChunk env now ps,
      .ok (r.plus ((s.ledger V).tally W s.options.maxFileSize env.files ps))) := by
  have hdropped := s.dropped_dispatched env now ps r
  rw [processChunk_eq_dispatched h.isOpen, ← h.total_dispatched env now ps r, recorded_dispatched,
    Dispatch.total, hdropped, Scanner.afterChunk]
  split
  · next hempty =>
    rw [List.isEmpty_iff] at hempty
    rw [hempty]
    rfl
  · exact (h.settled env now ps).1.dispatchRemoval env _ _

theorem Employs.processChunks (env : Surroundings) (now : Timestamp) {cs : List (List Path)}
    (hnodup : cs.flatten.Nodup) (h : s.Employs W) (r : ScanReport) :
    Scanner.processChunks env now cs s r = (cs.foldl (Scanner.afterChunk env now) s,
      .ok (r.plus ((s.ledger V).tally W s.options.maxFileSize env.files cs.flatten))) := by
  induction cs generalizing s r with
  | nil => rfl
  | cons c cs ih =>
    rw [List.flatten_cons, List.nodup_append] at hnodup
    obtain ⟨_, hrest, hapart⟩ := hnodup
    obtain ⟨hemploys, hledger⟩ := h.afterChunk env now c
    have hoptions := (sameProject_afterChunk env now s c).options
    have hlater : ∀ q ∈ cs.flatten,
        ((s.ledger V).scan s.options.maxFileSize env.files W c).digest? q =
          (s.ledger V).digest? q := fun q hq =>
      Ledger.digest?_scan fun hc => hapart q hc q hq rfl
    rw [Scanner.processChunks, h.processChunk, List.flatten_cons, Ledger.tally_append,
      ← ScanReport.plus_assoc]
    refine (ih hrest hemploys _).trans ?_
    rw [hledger, hoptions, Ledger.tally_congr hlater]
    rfl

theorem Employs.process (h : s.Employs W) (env : Surroundings) (now : Timestamp) {ps : List Path}
    (hnodup : ps.Nodup) (r : ScanReport) :
    s.process env now ps r = (s.afterFiles env now ps,
      .ok (r.plus ((s.ledger V).tally W s.options.maxFileSize env.files ps))) := by
  have hchunks : (chunksOf (s.options.chunkSize - 1) ps).flatten = ps := flatten_chunksOf _ ps
  have hprocess := h.processChunks env now (hchunks.symm ▸ hnodup) r
  rw [hchunks] at hprocess
  exact hprocess

theorem Employs.synchronize_eq (h : s.Employs W) (env : Surroundings) (now : Timestamp) :
    s.synchronize env now = (s.trimmed env).process env now (s.walk env.files)
      { removed := (s.gone env.files).length } := by
  have hpaths : s.hashes.paths =
      .ok ((s.hashes.files.map TrackedFile.path).mergeSort HashTable.textBefore) := by
    simp [HashTable.paths, HashTable.whenOpen, h.isOpen]
  unfold Scanner.synchronize
  simp only [hpaths]
  change (if (s.gone env.files).isEmpty then _ else _) = _
  by_cases hempty : (s.gone env.files).isEmpty = true
  · have htrimmed : s.trimmed env = s := if_pos hempty
    rw [if_pos hempty, htrimmed, List.isEmpty_iff.1 hempty]
    rfl
  · have htrimmed : s.trimmed env = s.discard env (s.gone env.files) := if_neg hempty
    rw [if_neg hempty, htrimmed]
    unfold gone
    rw [h.dispatchRemoval]
    simp only [Nat.zero_add]

end Scanner
end ProjectIndex
