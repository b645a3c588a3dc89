import ProjectIndex.Proofs.Scan.Steps

/-!
What every call of a scanner keeps. A call is a row of three kinds of steps: a file is settled,
files are discarded, or everything is cleared. So a property that each of these keeps holds after
every history of calls, however the files change from call to call.
-/
namespace ProjectIndex

inductive ScanCall where
  | indexAll (force : Bool)
  | indexFiles (paths : List Path)
  | removeFiles (paths : List Path)
  | clearHashes

namespace Scanner

variable {σ : Type}

def call (s : Scanner σ) (m : Moment) : ScanCall → Scanner σ
  | .indexAll force => (s.indexAll m force).1
  | .indexFiles ps => (s.indexFiles m ps).1
  | .removeFiles ps => (s.removeFiles m ps).1
  | .clearHashes => (s.clearHashes m).1

def after (s : Scanner σ) (history : List (Moment × ScanCall)) : Scanner σ :=
  history.foldl (fun s c => s.call c.1 c.2) s

def looksAt (s : Scanner σ) (m : Moment) : ScanCall → List Path
  | .indexAll _ => s.walk m.files
  | .indexFiles ps => s.requested ps
  | .removeFiles _ => []
  | .clearHashes => []

/-- A property of scanners with an open hash table that every step of a call keeps. `found` says
what contents of a path may be met. -/
structure Invariant (found : Path → List UInt8 → Prop) (P : Scanner σ → Prop) : Prop where
  isOpen : ∀ {s}, P s → s.hashes.closed = false
  settle : ∀ env now {s p bytes}, found p bytes → P s → P (settle env now s (changedTo p bytes))
  discard : ∀ env {s} ps, P s → P (s.discard env ps)
  clear : ∀ env {s}, P s → P (s.clearAll env).1

namespace Invariant

variable {found : Path → List UInt8 → Prop} {P : Scanner σ → Prop}

theorem settled (I : Invariant found P) (env : Surroundings) (now : Timestamp) {s : Scanner σ}
    {ps : List Path}
    (hfound : ∀ p ∈ ps, ∀ bytes, env.files.find p = .ok (.file bytes) → found p bytes)
    (h : P s) : P (s.settled env now ps) := by
  unfold Scanner.settled prepared
  -- Every file was prepared by the scanner at the start of the chunk.
  suffices hfold : ∀ v, P v →
      P ((ps.map fun p => (p, s.prepare env.files p)).foldl (Scanner.settle env now) v) from
    hfold s h
  induction ps with
  | nil => exact fun v hv => hv
  | cons p ps ih =>
    intro v hv
    rw [List.map_cons, List.foldl_cons]
    apply ih fun q hq => hfound q (List.mem_cons_of_mem _ hq)
    rcases settle_prepare env now s v p with hsame | ⟨bytes, hfind, hsettle⟩
    · rw [hsame]
      exact hv
    · rw [hsettle]
      exact I.settle env now (hfound p (List.mem_cons_self ..) bytes hfind) hv

theorem afterChunk (I : Invariant found P) (env : Surroundings) (now : Timestamp) {s : Scanner σ}
    {ps : List Path}
    (hfound : ∀ p ∈ ps, ∀ bytes, env.files.find p = .ok (.file bytes) → found p bytes)
    (h : P s) : P (s.afterChunk env now ps) := by
  unfold Scanner.afterChunk
  split
  · exact I.settled env now hfound h
  · exact I.discard env _ (I.settled env now hfound h)

theorem afterFiles (I : Invariant found P) (env : Surroundings) (now : Timestamp) {s : Scanner σ}
    {ps : List Path}
    (hfound : ∀ p ∈ ps, ∀ bytes, env.files.find p = .ok (.file bytes) → found p bytes)
    (h : P s) : P (s.afterFiles env now ps) := by
  unfold Scanner.afterFiles
  rw [← flatten_chunksOf (s.options.chunkSize - 1) ps] at hfound
  generalize chunksOf (s.options.chunkSize - 1) ps = cs at hfound ⊢
  induction cs generalizing s with
  | nil => exact h
  | cons c cs ih =>
    rw [List.foldl_cons]
    refine ih (I.afterChunk env now (fun p hp => ?_) h) fun p hp => ?_
    · exact hfound p (List.mem_append_left _ hp)
    · exact hfound p (List.mem_append_right _ hp)

theorem trimmed (I : Invariant found P) (env : Surroundings) {s : Scanner σ} (h : P s) :
    P (s.trimmed env) := by
  unfold Scanner.trimmed
  split
  · exact h
  · exact I.discard env _ h

theorem synchronize (I : Invariant found P) (env : Surroundings) (now : Timestamp) {s : Scanner σ}
    (hfound : ∀ p ∈ s.walk env.files, ∀ bytes,
      env.files.find p = .ok (.file bytes) → found p bytes)
    (h : P s) : P (s.synchronize env now).1 := by
  obtain ⟨r, hsync, _⟩ := synchronize_eq (I.isOpen h) env now
  rw [hsync]
  exact I.afterFiles env now hfound (I.trimmed env h)

theorem indexAll (I : Invariant found P) (m : Moment) (force : Bool) {s : Scanner σ}
    (hfound : ∀ p ∈ s.walk m.files, ∀ bytes, m.files.find p = .ok (.file bytes) → found p bytes)
    (h : P s) : P (s.indexAll m force).1 := by
  have hsync : ∀ t : Scanner σ, s.SameProject t → P t →
      P (t.synchronize ⟨m.files, .scanning true⟩ m.now).1 := by
    intro t hsame ht
    refine I.synchronize ⟨m.files, .scanning true⟩ m.now (fun p hp => ?_) ht
    exact hfound p (hsame.walk m.files ▸ hp)
  unfold Scanner.indexAll
  split
  · exact h
  · cases force with
    | false => exact hsync s ⟨rfl, rfl, rfl, rfl⟩ h
    | true =>
      have hclear := I.clear ⟨m.files, .scanning true⟩ h
      have hsame := s.sameProject_clearAll ⟨m.files, .scanning true⟩
      simp only [if_true]
      split
      · next hres =>
        rw [hres] at hclear
        exact hclear
      · next t hres =>
        rw [hres] at hclear hsame
        exact hsync t hsame hclear

theorem indexFiles (I : Invariant found P) (m : Moment) (ps : List Path) {s : Scanner σ}
    (hfound : ∀ p ∈ s.requested ps, ∀ bytes,
      m.files.find p = .ok (.file bytes) → found p bytes)
    (h : P s) : P (s.indexFiles m ps).1 := by
  unfold Scanner.indexFiles
  split
  · exact h
  · obtain ⟨r, hprocess, _⟩ := process_eq (I.isOpen h) ⟨m.files, .scanning false⟩ m.now
      (s.requested ps) {}
    rw [hprocess]
    exact I.afterFiles ⟨m.files, .scanning false⟩ m.now hfound h

theorem removeFiles (I : Invariant found P) (m : Moment) (ps : List Path) {s : Scanner σ}
    (h : P s) : P (s.removeFiles m ps).1 := by
  unfold Scanner.removeFiles
  split
  · exact h
  · rw [dispatchRemoval_eq (I.isOpen h)]
    exact I.discard _ _ h

theorem clearHashes (I : Invariant found P) (m : Moment) {s : Scanner σ} (h : P s) :
    P (s.clearHashes m).1 := by
  unfold Scanner.clearHashes
  split
  · exact h
  · exact I.clear _ h

theorem call (I : Invariant found P) (m : Moment) (c : ScanCall) {s : Scanner σ}
    (hfound : ∀ p ∈ s.looksAt m c, ∀ bytes, m.files.find p = .ok (.file bytes) → found p bytes)
    (h : P s) : P (s.call m c) := by
  cases c with
  | indexAll force => exact I.indexAll m force hfound h
  | indexFiles ps => exact I.indexFiles m ps hfound h
  | removeFiles ps => exact I.removeFiles m ps h
  | clearHashes => exact I.clearHashes m h

theorem withProject (I : Invariant found P) (s : Scanner σ) :
    Invariant found fun t => P t ∧ s.SameProject t where
  isOpen h := I.isOpen h.1
  settle env now {t} _ _ hf h :=
    ⟨I.settle env now hf h.1, h.2.trans (sameProject_settle env now t _)⟩
  discard env _ ps h := ⟨I.discard env ps h.1, h.2.trans ⟨rfl, rfl, rfl, rfl⟩⟩
  clear env {t} h := ⟨I.clear env h.1, h.2.trans (t.sameProject_clearAll env)⟩

/-- What every step keeps holds after every history. -/
theorem after (I : Invariant found P) (history : List (Moment × ScanCall)) {s : Scanner σ}
    (hfound : ∀ c ∈ history, ∀ t : Scanner σ, s.SameProject t → ∀ p ∈ t.looksAt c.1 c.2,
      ∀ bytes, c.1.files.find p = .ok (.file bytes) → found p bytes)
    (h : P s) : P (s.after history) ∧ s.SameProject (s.after history) := by
  suffices hrun : ∀ t, P t ∧ s.SameProject t → P (t.after history) ∧ s.SameProject (t.after history)
    from hrun s ⟨h, rfl, rfl, rfl, rfl⟩
  induction history with
  | nil => exact fun t ht => ht
  | cons c history ih =>
    intro t ht
    refine ih (fun d hd => hfound d (List.mem_cons_of_mem _ hd)) _ ?_
    exact (I.withProject s).call c.1 c.2 (hfound c (List.mem_cons_self ..) t ht.2) ht

end Invariant

end Scanner
end ProjectIndex
