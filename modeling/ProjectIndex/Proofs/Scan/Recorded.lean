import ProjectIndex.Proofs.Scan.Steps

/-!
What a scan without failures records. Each file it looks at ends up under the digest of its content,
or without a record when it is too large; all other records stay as they were. Even where a call
fails, a path that names nothing loses its record.
-/
namespace ProjectIndex

theorem Digest.sha256_ne_retryHash (bytes : List UInt8) : Digest.sha256 bytes ≠ retryHash := by
  intro h
  have hlength := congrArg (fun s : String => s.toList.length) h
  simp [Digest.sha256, Digest.hexWord, retryHash] at hlength

namespace HashTable

/-- The digest under which a path is recorded, or the retry mark. -/
def digest? (h : HashTable) (p : Path) : Option String := (h.find? p).map TrackedFile.contentHash

theorem digest?_eq_none {h : HashTable} {p : Path} : h.digest? p = none ↔ h.find? p = none :=
  Option.map_eq_none_iff

theorem digest?_record (h : HashTable) (f : TrackedFile) (p : Path) :
    (h.record f).digest? p = if p = f.path then some f.contentHash else h.digest? p := by
  rw [digest?, find?_record]
  split <;> rfl

theorem digest?_without (h : HashTable) (ps : List Path) (p : Path) :
    (h.without ps).digest? p = if p ∈ ps then none else h.digest? p := by
  rw [digest?, find?_without]
  split <;> rfl

theorem hashOf_eq {h : HashTable} (hopen : h.closed = false) (p : Path) :
    h.hashOf p = .ok (h.digest? p) := by
  simp [hashOf, whenOpen, hopen, digest?]

end HashTable

def Prepared.digest? : Prepared → Option String
  | .changed hash _ _ => some hash
  | _ => none

namespace Scanner

variable {σ : Type}

theorem settle_of_digest?_eq_none (env : Surroundings) (now : Timestamp) (v : Scanner σ) {p : Path}
    {prep : Prepared} (h : prep.digest? = none) : settle env now v (p, prep) = v := by
  cases prep with
  | changed hash src tree => cases h
  | _ => rfl

theorem digest?_settle {env : Surroundings} (now : Timestamp) {s : Scanner σ} {p : Path}
    {prep : Prepared} (hzero : failures env s (p, prep) = 0) (q : Path) :
    (settle env now s (p, prep)).hashes.digest? q =
      if q = p then prep.digest?.or (s.hashes.digest? q) else s.hashes.digest? q := by
  cases prep with
  | changed hash src tree =>
    have hrecord : (settle env now s (p, .changed hash src tree)).hashes =
        s.hashes.record ⟨p, hash, now⟩ := by
      have hnone : (s.offer env p src tree s.facts).2 = 0 := hzero
      simp only [settle, if_pos hnone]
    rw [hrecord, HashTable.digest?_record]
    rfl
  | _ => exact (ite_self _).symm

theorem digest?_foldl_settle (s : Scanner σ) (env : Surroundings) (now : Timestamp)
    (ps : List Path) {v : Scanner σ}
    (hzero : settleFailures env now v (s.prepared env.files ps) = 0) (q : Path) :
    ((s.prepared env.files ps).foldl (settle env now) v).hashes.digest? q =
      if q ∈ ps then (s.prepare env.files q).digest?.or (v.hashes.digest? q)
      else v.hashes.digest? q := by
  induction ps generalizing v with
  | nil => rfl
  | cons p ps ih =>
    obtain ⟨hfirst, hrest⟩ := Nat.add_eq_zero_iff.1 hzero
    have hstep := digest?_settle now hfirst q
    have hfold := ih hrest
    rw [hstep] at hfold
    refine hfold.trans ?_
    by_cases hqp : q = p
    · subst hqp
      cases (s.prepare env.files q).digest? <;> simp
    · simp [hqp]

theorem mem_leaving {s : Scanner σ} {files : FileTree} {ps : List Path} {q : Path} :
    q ∈ s.leaving files ps ↔ q ∈ ps ∧ s.leaving? (q, s.prepare files q) = some q := by
  have hself : ∀ p, s.leaving? (p, s.prepare files p) = some q → p = q := by
    intro p hp
    unfold leaving? at hp
    split at hp
    · exact Option.some.inj hp
    · split at hp
      · exact Option.some.inj hp
      · cases hp
    · cases hp
  rw [leaving, prepared, List.filterMap_map, List.mem_filterMap]
  constructor
  · rintro ⟨p, hp, hleaves⟩
    have hpq := hself p hleaves
    subst hpq
    exact ⟨hp, hleaves⟩
  · rintro ⟨hq, hleaves⟩
    exact ⟨q, hq, hleaves⟩

theorem find?_settled_of_notMem (s : Scanner σ) (env : Surroundings) (now : Timestamp)
    {ps : List Path} {q : Path} (hq : q ∉ ps) :
    (s.settled env now ps).hashes.find? q = s.hashes.find? q := by
  suffices hfold : ∀ v : Scanner σ,
      ((s.prepared env.files ps).foldl (settle env now) v).hashes.find? q = v.hashes.find? q from
    hfold s
  induction ps with
  | nil => exact fun _ => rfl
  | cons p ps ih =>
    intro v
    rw [List.mem_cons, not_or] at hq
    refine (ih hq.2 _).trans ?_
    rcases settle_prepare env now s v p with hsame | ⟨bytes, _, hsettle⟩
    · rw [hsame]
    · rw [hsettle, find?_settle, if_neg hq.1]

theorem find?_afterChunk (s : Scanner σ) (env : Surroundings) (now : Timestamp) (ps : List Path)
    (q : Path) : (s.afterChunk env now ps).hashes.find? q =
      if q ∈ s.leaving env.files ps then none else (s.settled env now ps).hashes.find? q := by
  unfold afterChunk
  split
  · next hempty =>
    rw [List.isEmpty_iff] at hempty
    rw [hempty, if_neg List.not_mem_nil]
  · exact HashTable.find?_without _ _ q

theorem digest?_afterChunk_eq (s : Scanner σ) (env : Surroundings) (now : Timestamp)
    (ps : List Path) (q : Path) :
    (s.afterChunk env now ps).hashes.digest? q =
      if q ∈ s.leaving env.files ps then none else (s.settled env now ps).hashes.digest? q := by
  rw [HashTable.digest?, find?_afterChunk]
  split <;> rfl

theorem digest?_trimmed_eq (s : Scanner σ) (env : Surroundings) (p : Path) :
    (s.trimmed env).hashes.digest? p =
      if p ∈ s.gone env.files then none else s.hashes.digest? p := by
  rw [HashTable.digest?, find?_trimmed]
  split <;> rfl

theorem find?_afterChunk_of_notMem (s : Scanner σ) (env : Surroundings) (now : Timestamp)
    {ps : List Path} {q : Path} (hq : q ∉ ps) :
    (s.afterChunk env now ps).hashes.find? q = s.hashes.find? q := by
  rw [find?_afterChunk, if_neg fun h => hq (mem_leaving.1 h).1, s.find?_settled_of_notMem env now hq]

theorem find?_afterChunk_of_missing (s : Scanner σ) {env : Surroundings} (now : Timestamp)
    {ps : List Path} {q : Path} (hq : q ∈ ps) (hmissing : env.files.find q = .error .notFound) :
    (s.afterChunk env now ps).hashes.find? q = none := by
  have hprepare : s.prepare env.files q = .missing := by
    unfold prepare
    rw [hmissing]
  have hleaving : q ∈ s.leaving env.files ps := by
    rw [mem_leaving, hprepare]
    exact ⟨hq, rfl⟩
  rw [find?_afterChunk, if_pos hleaving]

theorem find?_foldl_afterChunk_of_notMem (s : Scanner σ) (env : Surroundings) (now : Timestamp)
    {cs : List (List Path)} {q : Path} (hq : q ∉ cs.flatten) :
    (cs.foldl (afterChunk env now) s).hashes.find? q = s.hashes.find? q := by
  induction cs generalizing s with
  | nil => rfl
  | cons c cs ih =>
    rw [List.flatten_cons, List.mem_append, not_or] at hq
    rw [List.foldl_cons, ih _ hq.2, s.find?_afterChunk_of_notMem env now hq.1]

theorem find?_afterFiles_of_notMem (s : Scanner σ) (env : Surroundings) (now : Timestamp)
    {ps : List Path} {q : Path} (hq : q ∉ ps) :
    (s.afterFiles env now ps).hashes.find? q = s.hashes.find? q := by
  rw [← flatten_chunksOf (s.options.chunkSize - 1) ps] at hq
  exact s.find?_foldl_afterChunk_of_notMem env now hq

theorem find?_afterFiles_of_missing (s : Scanner σ) {env : Surroundings} (now : Timestamp)
    {ps : List Path} {q : Path} (hq : q ∈ ps) (hmissing : env.files.find q = .error .notFound) :
    (s.afterFiles env now ps).hashes.find? q = none := by
  unfold afterFiles
  rw [← flatten_chunksOf (s.options.chunkSize - 1) ps] at hq
  generalize chunksOf (s.options.chunkSize - 1) ps = cs at hq ⊢
  induction cs generalizing s with
  | nil => exact absurd hq List.not_mem_nil
  | cons c cs ih =>
    rw [List.foldl_cons]
    by_cases hlater : q ∈ cs.flatten
    · exact ih _ hlater
    · rw [find?_foldl_afterChunk_of_notMem _ env now hlater]
      refine s.find?_afterChunk_of_missing now ?_ hmissing
      exact (List.mem_append.1 hq).resolve_right hlater

/-- A path that is recorded behind a full scan was walked, or it is another spelling of a walked path
that is text. -/
theorem walked_or_same_of_recorded {s t : Scanner σ} (hopen : s.hashes.closed = false) {m : Moment}
    {r : ScanReport} (hscan : s.indexAll m false = (t, .ok r)) {p : Path}
    (hp : (t.hashes.find? p).isSome = true) : p ∈ s.walk m.files ∨
      ∃ q ∈ s.walk m.files, m.files.isText q = true ∧ Path.same p q = true := by
  obtain ⟨rfl, _⟩ := indexAll_eq_ok hopen hscan
  refine or_iff_not_imp_left.2 fun hout => ?_
  by_contra hnone
  rw [find?_afterFiles_of_notMem _ _ _ hout, find?_trimmed] at hp
  split at hp
  · cases hp
  · next hstays =>
    exact hstays (mem_gone_iff.2 ⟨hp, fun q hq htext =>
      Bool.eq_false_iff.2 fun hsame => hnone ⟨q, hq, htext, hsame⟩⟩)

theorem exists_same_of_recorded {s t : Scanner σ} (hopen : s.hashes.closed = false) {m : Moment}
    {r : ScanReport} (hscan : s.indexAll m false = (t, .ok r)) {p : Path}
    (hp : (t.hashes.find? p).isSome = true) : ∃ q ∈ s.walk m.files, Path.same p q = true := by
  rcases walked_or_same_of_recorded hopen hscan hp with hwalked | ⟨q, hq, _, hsame⟩
  · exact ⟨p, hwalked, beq_self_eq_true p.components⟩
  · exact ⟨q, hq, hsame⟩

def dueDigest? (s : Scanner σ) (bytes : List UInt8) : Option String :=
  if s.options.maxFileSize < bytes.length then none else some (Digest.sha256 bytes)

theorem dueDigest?_eq_some {s : Scanner σ} {bytes : List UInt8} {hash : String} :
    s.dueDigest? bytes = some hash ↔
      bytes.length ≤ s.options.maxFileSize ∧ hash = Digest.sha256 bytes := by
  rw [dueDigest?, Option.ite_none_left_eq_some, Nat.not_lt, Option.some.injEq, eq_comm (b := hash)]

theorem SameProject.dueDigest? {s t : Scanner σ} (h : s.SameProject t) (bytes : List UInt8) :
    t.dueDigest? bytes = s.dueDigest? bytes := by
  unfold Scanner.dueDigest?
  rw [h.options]

theorem digest?_afterChunk {s : Scanner σ} (hopen : s.hashes.closed = false) {env : Surroundings}
    {now : Timestamp} {ps : List Path} (hzero : s.chunkFailures env now ps = 0) (q : Path) :
    (q ∉ ps → (s.afterChunk env now ps).hashes.digest? q = s.hashes.digest? q) ∧
      ∀ bytes, env.files.find q = .ok (.file bytes) → q ∈ ps →
        (s.afterChunk env now ps).hashes.digest? q = s.dueDigest? bytes := by
  have hsettled := s.digest?_foldl_settle env now ps (Nat.add_eq_zero_iff.1 hzero).1 q
  rw [digest?_afterChunk_eq, settled, hsettled]
  refine ⟨fun hq => ?_, fun bytes hfind hq => ?_⟩
  · rw [if_neg fun h => hq (mem_leaving.1 h).1, if_neg hq]
  · have hprepare := prepare_of_find hfind s
    rw [HashTable.hashOf_eq hopen] at hprepare
    rw [if_pos hq, dueDigest?]
    by_cases hlarge : s.options.maxFileSize < bytes.length
    · -- Too large: a record is dropped, and none is written.
      rw [if_pos hlarge] at hprepare ⊢
      split
      · rfl
      · next hstays =>
        rw [mem_leaving, hprepare] at hstays
        cases hrecord : s.hashes.find? q with
        | none => simp [hprepare, Prepared.digest?, HashTable.digest?, hrecord]
        | some f => exact absurd ⟨hq, by simp [leaving?, hrecord]⟩ hstays
    · rw [if_neg hlarge] at hprepare ⊢
      have hstays : q ∉ s.leaving env.files ps := by
        rw [mem_leaving, hprepare]
        rintro ⟨_, hleaves⟩
        split at hleaves <;> cases hleaves
      rw [if_neg hstays, hprepare]
      split
      · next hsame =>
        have hdigest : s.hashes.digest? q = some (Digest.sha256 bytes) := by
          simpa [Except.toOption] using hsame
        rw [hdigest]
        rfl
      · rfl

theorem digest?_foldl_afterChunk {env : Surroundings} {now : Timestamp} (cs : List (List Path))
    {s : Scanner σ} (hopen : s.hashes.closed = false) (hzero : chunksFailures env now s cs = 0)
    (q : Path) :
    (q ∉ cs.flatten →
      (cs.foldl (afterChunk env now) s).hashes.digest? q = s.hashes.digest? q) ∧
      ∀ bytes, env.files.find q = .ok (.file bytes) → q ∈ cs.flatten →
        (cs.foldl (afterChunk env now) s).hashes.digest? q = s.dueDigest? bytes := by
  induction cs generalizing s with
  | nil => exact ⟨fun _ => rfl, fun _ _ hq => absurd hq List.not_mem_nil⟩
  | cons c cs ih =>
    obtain ⟨hchunk, hchunks⟩ := Nat.add_eq_zero_iff.1 hzero
    have hsame := sameProject_afterChunk env now s c
    obtain ⟨hout, hin⟩ := digest?_afterChunk hopen hchunk q
    obtain ⟨hout', hin'⟩ := ih ((hashes_closed_afterChunk env now s c).trans hopen) hchunks
    rw [List.foldl_cons, List.flatten_cons]
    refine ⟨fun hq => ?_, fun bytes hfind hq => ?_⟩
    · rw [hout' fun h => hq (List.mem_append_right _ h),
        hout fun h => hq (List.mem_append_left _ h)]
    · by_cases hlater : q ∈ cs.flatten
      · rw [hin' bytes hfind hlater, hsame.dueDigest?]
      · rw [hout' hlater]
        exact hin bytes hfind ((List.mem_append.1 hq).resolve_right hlater)

theorem digest?_afterFiles {s : Scanner σ} (hopen : s.hashes.closed = false) {env : Surroundings}
    {now : Timestamp} {ps : List Path} (hzero : s.filesFailures env now ps = 0) (q : Path) :
    (q ∉ ps → (s.afterFiles env now ps).hashes.digest? q = s.hashes.digest? q) ∧
      ∀ bytes, env.files.find q = .ok (.file bytes) → q ∈ ps →
        (s.afterFiles env now ps).hashes.digest? q = s.dueDigest? bytes := by
  have hchunks := digest?_foldl_afterChunk _ hopen hzero q
  rwa [flatten_chunksOf] at hchunks

end Scanner
end ProjectIndex
