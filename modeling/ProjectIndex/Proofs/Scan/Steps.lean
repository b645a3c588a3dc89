import ProjectIndex.Proofs.Store.Records
import ProjectIndex.Scan.Scanner

/-!
What the scanner does with a list of files, one after the other. The hashes of a chunk are written
behind its last file, but the outcome is that of recording each file as soon as it is indexed: a
scan settles files, and discards those that have to go.
-/
namespace ProjectIndex

theorem flatten_chunksOf {α : Type} (n : Nat) (l : List α) : (chunksOf n l).flatten = l := by
  fun_induction chunksOf n l with
  | case1 => rfl
  | case2 a l ih => rw [List.flatten_cons, ih, List.cons_append, List.take_append_drop]

namespace Scanner

variable {σ : Type}

/-- Hands a file that changed to the indexers and records it at once. -/
def settle (env : Surroundings) (now : Timestamp) (s : Scanner σ) (file : Path × Prepared) :
    Scanner σ :=
  match file.2 with
  | .changed hash src tree =>
    let o := s.offer env file.1 src tree s.facts
    { s with
      facts := o.1
      hashes := s.hashes.record ⟨file.1, if o.2 = 0 then hash else retryHash, now⟩ }
  | _ => s

def failures (env : Surroundings) (s : Scanner σ) (file : Path × Prepared) : Nat :=
  match file.2 with
  | .changed _ src tree => (s.offer env file.1 src tree s.facts).2
  | _ => 0

def leaving? (s : Scanner σ) (file : Path × Prepared) : Option Path :=
  match file.2 with
  | .missing => some file.1
  | .oversized => if (s.hashes.find? file.1).isSome then some file.1 else none
  | _ => none

def discard (env : Surroundings) (s : Scanner σ) (ps : List Path) : Scanner σ :=
  { s with
    facts := (callEach (fun i => i.removed env ps) s.indexers s.facts).1
    hashes := s.hashes.without ps }

def recorded (s : Scanner σ) (d : Dispatch σ) : Scanner σ :=
  { s with facts := d.facts, hashes := d.tracked.foldl HashTable.record s.hashes }

theorem recorded_dispatch (s : Scanner σ) (env : Surroundings) (now : Timestamp) (d : Dispatch σ)
    (file : Path × Prepared) :
    s.recorded (s.dispatch env now d file) = settle env now (s.recorded d) file := by
  obtain ⟨p, prep⟩ := file
  cases prep with
  | changed hash src tree =>
    unfold recorded dispatch settle
    rw [List.foldl_append]
    rfl
  | _ => rfl

theorem dropped_dispatch (s : Scanner σ) (env : Surroundings) (now : Timestamp) (d : Dispatch σ)
    (file : Path × Prepared) :
    (s.dispatch env now d file).dropped = d.dropped ++ (s.leaving? file).toList := by
  obtain ⟨p, prep⟩ := file
  cases prep with
  | oversized =>
    simp only [dispatch, leaving?]
    split <;> simp
  | missing => rfl
  | _ => simp [dispatch, leaving?]

theorem failed_dispatch (s : Scanner σ) (env : Surroundings) (now : Timestamp) (d : Dispatch σ)
    (file : Path × Prepared) :
    (s.dispatch env now d file).report.failed =
      d.report.failed + failures env (s.recorded d) file := by
  obtain ⟨p, prep⟩ := file
  cases prep <;> rfl

theorem recorded_foldl (s : Scanner σ) (env : Surroundings) (now : Timestamp)
    (files : List (Path × Prepared)) (d : Dispatch σ) :
    s.recorded (files.foldl (s.dispatch env now) d) =
      files.foldl (settle env now) (s.recorded d) := by
  induction files generalizing d with
  | nil => rfl
  | cons file files ih => rw [List.foldl_cons, ih, recorded_dispatch, List.foldl_cons]

theorem dropped_foldl (s : Scanner σ) (env : Surroundings) (now : Timestamp)
    (files : List (Path × Prepared)) (d : Dispatch σ) :
    (files.foldl (s.dispatch env now) d).dropped = d.dropped ++ files.filterMap s.leaving? := by
  induction files generalizing d with
  | nil => simp
  | cons file files ih =>
    rw [List.foldl_cons, ih, dropped_dispatch, List.append_assoc, List.filterMap_cons]
    cases s.leaving? file <;> rfl

theorem dispatchRemoval_eq {s : Scanner σ} (hopen : s.hashes.closed = false) (env : Surroundings)
    (ps : List Path) (r : ScanReport) :
    s.dispatchRemoval env ps r = (s.discard env ps,
      .ok { r with
        removed := r.removed + ps.length
        failed := r.failed + (callEach (fun i => i.removed env ps) s.indexers s.facts).2 }) := by
  unfold dispatchRemoval discard
  rw [HashTable.remove_eq hopen]

theorem hashes_closed_settle (env : Surroundings) (now : Timestamp) (s : Scanner σ)
    (file : Path × Prepared) : (settle env now s file).hashes.closed = s.hashes.closed := by
  obtain ⟨p, prep⟩ := file
  cases prep <;> rfl

theorem hashes_closed_foldl_settle (env : Surroundings) (now : Timestamp)
    (files : List (Path × Prepared)) (s : Scanner σ) :
    (files.foldl (settle env now) s).hashes.closed = s.hashes.closed := by
  induction files generalizing s with
  | nil => rfl
  | cons file files ih => rw [List.foldl_cons, ih, hashes_closed_settle]

def settled (s : Scanner σ) (env : Surroundings) (now : Timestamp) (ps : List Path) : Scanner σ :=
  (s.prepared env.files ps).foldl (settle env now) s

def leaving (s : Scanner σ) (files : FileTree) (ps : List Path) : List Path :=
  (s.prepared files ps).filterMap s.leaving?

def afterChunk (env : Surroundings) (now : Timestamp) (s : Scanner σ) (ps : List Path) :
    Scanner σ :=
  if (s.leaving env.files ps).isEmpty then s.settled env now ps
  else (s.settled env now ps).discard env (s.leaving env.files ps)

def settleFailures (env : Surroundings) (now : Timestamp) :
    Scanner σ → List (Path × Prepared) → Nat
  | _, [] => 0
  | s, file :: files => failures env s file + settleFailures env now (settle env now s file) files

def chunkFailures (env : Surroundings) (now : Timestamp) (s : Scanner σ) (ps : List Path) : Nat :=
  settleFailures env now s (s.prepared env.files ps) +
    if (s.leaving env.files ps).isEmpty then 0
    else (callEach (fun i => i.removed env (s.leaving env.files ps)) s.indexers
      (s.settled env now ps).facts).2

theorem failed_foldl (s : Scanner σ) (env : Surroundings) (now : Timestamp)
    (files : List (Path × Prepared)) (d : Dispatch σ) :
    (files.foldl (s.dispatch env now) d).report.failed =
      d.report.failed + settleFailures env now (s.recorded d) files := by
  induction files generalizing d with
  | nil => rfl
  | cons file files ih =>
    rw [List.foldl_cons, ih, failed_dispatch, recorded_dispatch, settleFailures, Nat.add_assoc]

/-- What settling, discarding and clearing leave as it is. -/
structure SameProject (s t : Scanner σ) : Prop where
  root : t.root = s.root
  options : t.options = s.options
  indexers : t.indexers = s.indexers
  closed : t.closed = s.closed

theorem SameProject.trans {s t u : Scanner σ} (h : s.SameProject t) (k : t.SameProject u) :
    s.SameProject u :=
  ⟨k.root.trans h.root, k.options.trans h.options, k.indexers.trans h.indexers,
    k.closed.trans h.closed⟩

theorem sameProject_settle (env : Surroundings) (now : Timestamp) (s : Scanner σ)
    (file : Path × Prepared) : s.SameProject (settle env now s file) := by
  obtain ⟨p, prep⟩ := file
  cases prep <;> exact ⟨rfl, rfl, rfl, rfl⟩

theorem sameProject_foldl_settle (env : Surroundings) (now : Timestamp)
    (files : List (Path × Prepared)) (s : Scanner σ) :
    s.SameProject (files.foldl (settle env now) s) := by
  induction files generalizing s with
  | nil => exact ⟨rfl, rfl, rfl, rfl⟩
  | cons file files ih => exact (sameProject_settle env now s file).trans (ih _)

def dispatched (s : Scanner σ) (env : Surroundings) (now : Timestamp) (ps : List Path)
    (r : ScanReport) : Dispatch σ :=
  (s.prepared env.files ps).foldl (s.dispatch env now) ⟨s.facts, r, [], []⟩

theorem recorded_dispatched (s : Scanner σ) (env : Surroundings) (now : Timestamp) (ps : List Path)
    (r : ScanReport) : s.recorded (s.dispatched env now ps r) = s.settled env now ps :=
  s.recorded_foldl env now _ _

theorem dropped_dispatched (s : Scanner σ) (env : Surroundings) (now : Timestamp) (ps : List Path)
    (r : ScanReport) : (s.dispatched env now ps r).dropped = s.leaving env.files ps :=
  s.dropped_foldl env now _ _

theorem failed_dispatched (s : Scanner σ) (env : Surroundings) (now : Timestamp) (ps : List Path)
    (r : ScanReport) : (s.dispatched env now ps r).report.failed =
      r.failed + settleFailures env now s (s.prepared env.files ps) :=
  s.failed_foldl env now _ _

theorem processChunk_eq_dispatched {s : Scanner σ} (hopen : s.hashes.closed = false)
    (env : Surroundings) (now : Timestamp) (ps : List Path) (r : ScanReport) :
    s.processChunk env now ps r =
      if (s.dispatched env now ps r).dropped.isEmpty then
        (s.recorded (s.dispatched env now ps r), .ok (s.dispatched env now ps r).report)
      else (s.recorded (s.dispatched env now ps r)).dispatchRemoval env
        (s.dispatched env now ps r).dropped (s.dispatched env now ps r).report := by
  unfold processChunk
  simp only [HashTable.save_eq hopen]
  rfl

theorem hashes_closed_settled (s : Scanner σ) (env : Surroundings) (now : Timestamp)
    (ps : List Path) : (s.settled env now ps).hashes.closed = s.hashes.closed :=
  hashes_closed_foldl_settle env now _ s

/-- With an open hash table a chunk succeeds, and its outcome is that of its files in turn. -/
theorem processChunk_eq {s : Scanner σ} (hopen : s.hashes.closed = false) (env : Surroundings)
    (now : Timestamp) (ps : List Path) (r : ScanReport) :
    ∃ r', s.processChunk env now ps r = (s.afterChunk env now ps, .ok r') ∧
      r'.failed = r.failed + s.chunkFailures env now ps := by
  have hopen' : (s.settled env now ps).hashes.closed = false :=
    (s.hashes_closed_settled env now ps).trans hopen
  have hindexers : (s.settled env now ps).indexers = s.indexers :=
    (sameProject_foldl_settle env now _ s).indexers
  rw [processChunk_eq_dispatched hopen, recorded_dispatched, dropped_dispatched]
  unfold afterChunk chunkFailures
  by_cases hempty : (s.leaving env.files ps).isEmpty
  · simp only [if_pos hempty]
    exact ⟨_, rfl, s.failed_dispatched env now ps r⟩
  · simp only [if_neg hempty]
    refine ⟨_, dispatchRemoval_eq hopen' env _ _, ?_⟩
    simp only [failed_dispatched, hindexers, Nat.add_assoc]

theorem hashes_closed_afterChunk (env : Surroundings) (now : Timestamp) (s : Scanner σ)
    (ps : List Path) : (s.afterChunk env now ps).hashes.closed = s.hashes.closed := by
  unfold afterChunk
  split <;> exact s.hashes_closed_settled env now ps

theorem sameProject_afterChunk (env : Surroundings) (now : Timestamp) (s : Scanner σ)
    (ps : List Path) : s.SameProject (s.afterChunk env now ps) := by
  have hsettled : s.SameProject (s.settled env now ps) := sameProject_foldl_settle env now _ s
  unfold afterChunk
  split
  · exact hsettled
  · exact hsettled.trans ⟨rfl, rfl, rfl, rfl⟩

def chunksFailures (env : Surroundings) (now : Timestamp) : Scanner σ → List (List Path) → Nat
  | _, [] => 0
  | s, c :: cs => s.chunkFailures env now c + chunksFailures env now (s.afterChunk env now c) cs

theorem processChunks_eq (env : Surroundings) (now : Timestamp) (cs : List (List Path))
    {s : Scanner σ} (hopen : s.hashes.closed = false) (r : ScanReport) :
    ∃ r', processChunks env now cs s r = (cs.foldl (afterChunk env now) s, .ok r') ∧
      r'.failed = r.failed + chunksFailures env now s cs := by
  induction cs generalizing s r with
  | nil => exact ⟨r, rfl, rfl⟩
  | cons c cs ih =>
    obtain ⟨r₁, hchunk, hfailed₁⟩ := processChunk_eq hopen env now c r
    obtain ⟨r', hchunks, hfailed'⟩ :=
      ih ((hashes_closed_afterChunk env now s c).trans hopen) r₁
    refine ⟨r', ?_, ?_⟩
    · rw [processChunks, hchunk]
      exact hchunks
    · rw [hfailed', hfailed₁, chunksFailures, Nat.add_assoc]

def afterFiles (env : Surroundings) (now : Timestamp) (s : Scanner σ) (ps : List Path) :
    Scanner σ :=
  (chunksOf (s.options.chunkSize - 1) ps).foldl (afterChunk env now) s

theorem sameProject_afterFiles (env : Surroundings) (now : Timestamp) (s : Scanner σ)
    (ps : List Path) :
    s.SameProject (s.afterFiles env now ps) ∧
      (s.afterFiles env now ps).hashes.closed = s.hashes.closed := by
  unfold afterFiles
  generalize chunksOf (s.options.chunkSize - 1) ps = cs
  induction cs generalizing s with
  | nil => exact ⟨⟨rfl, rfl, rfl, rfl⟩, rfl⟩
  | cons c cs ih =>
    obtain ⟨hsame, hclosed⟩ := ih (s.afterChunk env now c)
    rw [List.foldl_cons]
    exact ⟨(sameProject_afterChunk env now s c).trans hsame,
      hclosed.trans (hashes_closed_afterChunk env now s c)⟩

def filesFailures (env : Surroundings) (now : Timestamp) (s : Scanner σ) (ps : List Path) : Nat :=
  chunksFailures env now s (chunksOf (s.options.chunkSize - 1) ps)

theorem process_eq {s : Scanner σ} (hopen : s.hashes.closed = false) (env : Surroundings)
    (now : Timestamp) (ps : List Path) (r : ScanReport) :
    ∃ r', s.process env now ps r = (s.afterFiles env now ps, .ok r') ∧
      r'.failed = r.failed + s.filesFailures env now ps :=
  processChunks_eq env now _ hopen r

def gone (s : Scanner σ) (files : FileTree) : List Path :=
  goneFrom files ((s.hashes.files.map TrackedFile.path).mergeSort HashTable.textBefore)
    (s.walk files)

theorem mem_gone_iff {s : Scanner σ} {files : FileTree} {p : Path} :
    p ∈ s.gone files ↔ (s.hashes.find? p).isSome = true ∧
      ∀ q ∈ s.walk files, files.isText q = true → Path.same p q = false := by
  rw [gone, goneFrom, List.mem_filter, List.mem_mergeSort, HashTable.mem_paths_iff,
    Bool.not_eq_true', List.any_eq_false]
  simp only [Bool.and_eq_true, not_and, Bool.not_eq_true]

/-- Of what a walk comes by, a recorded path counts as gone exactly if it is no text. -/
theorem mem_gone_iff_of_mem_walk {s : Scanner σ} {files : FileTree} {p : Path}
    (hp : p ∈ s.walk files) :
    p ∈ s.gone files ↔ (s.hashes.find? p).isSome = true ∧ files.isText p = false := by
  rw [mem_gone_iff]
  refine and_congr_right fun _ => ⟨fun hnone => ?_, fun hraw q _ htext => ?_⟩
  · have hself : Path.same p p = true := beq_self_eq_true p.components
    exact Bool.eq_false_iff.2 fun htext => absurd hself (by simp [hnone p hp htext])
  · exact Bool.eq_false_iff.2 fun hsame => by simp [FileTree.isText_congr hsame, htext] at hraw

theorem notMem_gone {s : Scanner σ} {files : FileTree} {p : Path} (hp : p ∈ s.walk files)
    (htext : files.isText p = true) : p ∉ s.gone files := fun hgone =>
  Bool.noConfusion (htext.symm.trans ((mem_gone_iff_of_mem_walk hp).1 hgone).2)

def trimmed (env : Surroundings) (s : Scanner σ) : Scanner σ :=
  if (s.gone env.files).isEmpty then s else s.discard env (s.gone env.files)

theorem isEmpty_of_mem_gone {s : Scanner σ} {files : FileTree} {p : Path} (hp : p ∈ s.gone files) :
    (s.gone files).isEmpty = false := List.isEmpty_eq_false_iff_exists_mem.2 ⟨p, hp⟩

theorem trimmed_of_mem_gone {s : Scanner σ} {env : Surroundings} {p : Path}
    (hp : p ∈ s.gone env.files) : s.trimmed env = s.discard env (s.gone env.files) := by
  rw [trimmed, isEmpty_of_mem_gone hp]
  rfl

theorem find?_trimmed (env : Surroundings) (s : Scanner σ) (p : Path) :
    (s.trimmed env).hashes.find? p = if p ∈ s.gone env.files then none else s.hashes.find? p := by
  unfold trimmed
  split
  · next hempty =>
    rw [List.isEmpty_iff] at hempty
    rw [hempty, if_neg List.not_mem_nil]
  · exact HashTable.find?_without s.hashes _ p

theorem sameProject_trimmed (env : Surroundings) (s : Scanner σ) :
    s.SameProject (s.trimmed env) := by
  unfold trimmed
  split <;> exact ⟨rfl, rfl, rfl, rfl⟩

theorem hashes_closed_trimmed (env : Surroundings) (s : Scanner σ) :
    (s.trimmed env).hashes.closed = s.hashes.closed := by
  unfold trimmed
  split <;> rfl

def trimFailures (env : Surroundings) (s : Scanner σ) : Nat :=
  if (s.gone env.files).isEmpty then 0
  else (callEach (fun i => i.removed env (s.gone env.files)) s.indexers s.facts).2

theorem synchronize_failed {s : Scanner σ} (hopen : s.hashes.closed = false) (env : Surroundings)
    (now : Timestamp) :
    ∃ r', s.synchronize env now =
        ((s.trimmed env).afterFiles env now (s.walk env.files), .ok r') ∧
      r'.failed = s.trimFailures env + (s.trimmed env).filesFailures env now (s.walk env.files) := by
  have hpaths : s.hashes.paths =
      .ok ((s.hashes.files.map TrackedFile.path).mergeSort HashTable.textBefore) := by
    simp [HashTable.paths, HashTable.whenOpen, hopen]
  have hopen' := (s.hashes_closed_trimmed env).trans hopen
  unfold synchronize trimFailures
  simp only [hpaths]
  change ∃ r', (if (s.gone env.files).isEmpty then _ else _) = _ ∧ _
  by_cases hempty : (s.gone env.files).isEmpty
  · have htrimmed : s.trimmed env = s := if_pos hempty
    obtain ⟨r', hprocess, hfailed⟩ := process_eq hopen env now (s.walk env.files) {}
    rw [htrimmed, if_pos hempty, if_pos hempty]
    exact ⟨r', hprocess, hfailed⟩
  · have htrimmed : s.trimmed env = s.discard env (s.gone env.files) := if_neg hempty
    rw [if_neg hempty, if_neg hempty]
    unfold gone at htrimmed
    rw [dispatchRemoval_eq hopen, ← htrimmed]
    obtain ⟨r', hprocess, hfailed⟩ := process_eq hopen' env now (s.walk env.files) _
    exact ⟨r', hprocess, hfailed.trans (congrArg (· + _) (Nat.zero_add _))⟩

/-- A full scan with an open hash table succeeds: it drops what is gone and takes the rest file by
file. -/
theorem synchronize_eq {s : Scanner σ} (hopen : s.hashes.closed = false) (env : Surroundings)
    (now : Timestamp) :
    ∃ r', s.synchronize env now =
        ((s.trimmed env).afterFiles env now (s.walk env.files), .ok r') ∧
      (s.trimmed env).filesFailures env now (s.walk env.files) ≤ r'.failed := by
  obtain ⟨r', hsync, hfailed⟩ := synchronize_failed hopen env now
  exact ⟨r', hsync, hfailed ▸ Nat.le_add_left _ _⟩

theorem indexAll_eq_ok {s s' : Scanner σ} (hopen : s.hashes.closed = false) {m : Moment}
    {r : ScanReport} (hscan : s.indexAll m false = (s', .ok r)) :
    let env : Surroundings := ⟨m.files, .scanning true⟩
    s' = (s.trimmed env).afterFiles env m.now (s.walk m.files) ∧
      r.failed =
        s.trimFailures env + (s.trimmed env).filesFailures env m.now (s.walk m.files) := by
  intro env
  obtain ⟨r', hsync, hfailed⟩ := synchronize_failed hopen env m.now
  unfold indexAll at hscan
  split at hscan
  · cases hscan
  · simp only [Bool.false_eq_true, if_false] at hscan
    have hsame := hsync.symm.trans hscan
    cases hsame
    exact ⟨rfl, hfailed⟩

def changedTo (p : Path) (bytes : List UInt8) : Path × Prepared :=
  (p, .changed (Digest.sha256 bytes) (Text.decodeLossy bytes)
    (parsePath p (Text.decodeLossy bytes)))

theorem find?_settle (env : Surroundings) (now : Timestamp) (s : Scanner σ) (p : Path)
    (bytes : List UInt8) (q : Path) :
    (settle env now s (changedTo p bytes)).hashes.find? q =
      if q = p then
        some ⟨p, if (s.offer env p (Text.decodeLossy bytes) (parsePath p (Text.decodeLossy bytes))
          s.facts).2 = 0 then Digest.sha256 bytes else retryHash, now⟩
      else s.hashes.find? q :=
  HashTable.find?_record s.hashes _ q

theorem prepare_of_find {files : FileTree} {p : Path} {bytes : List UInt8}
    (hfind : files.find p = .ok (.file bytes)) (s : Scanner σ) :
    s.prepare files p =
      if s.options.maxFileSize < bytes.length then .oversized
      else if (s.hashes.hashOf p).toOption == some (some (Digest.sha256 bytes)) then .unchanged
      else (changedTo p bytes).2 := by
  unfold prepare
  rw [hfind]
  rfl

theorem settle_prepare (env : Surroundings) (now : Timestamp) (s v : Scanner σ) (p : Path) :
    settle env now v (p, s.prepare env.files p) = v ∨
      ∃ bytes, env.files.find p = .ok (.file bytes) ∧
        settle env now v (p, s.prepare env.files p) = settle env now v (changedTo p bytes) := by
  unfold prepare
  split
  · exact .inl rfl
  · exact .inl rfl
  · next bytes hfind =>
    split
    · exact .inl rfl
    · dsimp only
      split
      · exact .inl rfl
      · exact .inr ⟨bytes, hfind, rfl⟩
  · exact .inl rfl

theorem sameProject_clearAll (env : Surroundings) (s : Scanner σ) :
    s.SameProject (s.clearAll env).1 := by
  unfold clearAll
  split
  · exact ⟨rfl, rfl, rfl, rfl⟩
  · split <;> exact ⟨rfl, rfl, rfl, rfl⟩

theorem SameProject.walk {s t : Scanner σ} (h : s.SameProject t) (files : FileTree) :
    t.walk files = s.walk files := by
  unfold Scanner.walk skipNames
  rw [h.root, h.options]

theorem SameProject.isIndexable {s t : Scanner σ} (h : s.SameProject t) (p : Path) :
    t.isIndexable p = s.isIndexable p := by
  unfold Scanner.isIndexable skipNames
  rw [h.root, h.options]

theorem open?_eq_ok {files : FileTree} {root : Path} {options : ScanOptions}
    {indexers : List (Indexer σ)} {hashes : HashTable} {facts : σ} {s : Scanner σ}
    (h : open? files root options indexers hashes facts = .ok s) :
    ∃ canonical, files.canonical? root = .ok canonical ∧
      s = ⟨canonical, options, indexers, hashes.reopen, facts, false⟩ := by
  unfold open? at h
  split at h
  · next canonical hcanonical => exact ⟨canonical, hcanonical, (Except.ok.inj h).symm⟩
  · cases h

end Scanner
end ProjectIndex
