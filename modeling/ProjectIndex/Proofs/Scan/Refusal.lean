import ProjectIndex.Proofs.Scan.Recorded
import ProjectIndex.Proofs.Scan.Synchronized

/-!
Scans with indexers that may refuse to forget. What the calls of a history touch is known even then:
a scan leaves alone the files it does not look at, and where no call of a scan fails, a file it
looks at keeps its facts if its content is recorded and else gets those of its content.
-/
namespace ProjectIndex

variable {σ τ : Type}

def Indexer.refusing (i : Indexer σ) (refuses : Surroundings → Bool) : Indexer σ where
  id := i.id
  accepts := i.accepts
  index env p tree src s :=
    if refuses env then (s, some .serialization) else i.index env p tree src s
  removed env ps s := if refuses env then (s, some .serialization) else i.removed env ps s
  clear env s := if refuses env then (s, some .serialization) else i.clear env s
  close := i.close

namespace Registry

def refusing (R : Registry σ) (refuses : R.Slot → Surroundings → Bool) : Registry σ where
  Slot := R.Slot
  order := R.order
  indexer i := (R.indexer i).refusing (refuses i)
  Fact := R.Fact
  held := R.held
  extract := R.extract
  sound := R.sound

variable {R : Registry σ}

theorem Replaces.refusing (hR : R.Replaces) (refuses : R.Slot → Surroundings → Bool) :
    (R.refusing refuses).Replaces where
  sound i env p tree src s hs := by
    simp only [Registry.refusing, Indexer.refusing]
    split
    · exact hs
    · exact hR.sound i env p tree src s hs
  frame i env p tree src s hs j q hjq := by
    simp only [Registry.refusing, Indexer.refusing]
    split
    · rfl
    · exact hR.frame i env p tree src s hs j q hjq
  held i env p tree src s hs hacc htree hnone := by
    simp only [Registry.refusing, Indexer.refusing] at hnone ⊢
    split at hnone
    · cases hnone
    · next hcalls =>
      rw [if_neg hcalls]
      exact hR.held i env p tree src s hs hacc htree hnone
  unparsed := hR.unparsed

theorem Forgets.refusing (hR : R.Forgets) (refuses : R.Slot → Surroundings → Bool) :
    (R.refusing refuses).Forgets where
  removed_sound i env ps s hs := by
    simp only [Registry.refusing, Indexer.refusing]
    split
    · exact hs
    · exact hR.removed_sound i env ps s hs
  removed_frame i env ps s hs j q hjq := by
    simp only [Registry.refusing, Indexer.refusing]
    split
    · rfl
    · exact hR.removed_frame i env ps s hs j q hjq
  removed_held i env ps s hs hnone := by
    simp only [Registry.refusing, Indexer.refusing] at hnone ⊢
    split at hnone
    · cases hnone
    · next hcalls =>
      rw [if_neg hcalls]
      exact hR.removed_held i env ps s hs hnone
  clear_sound i env s hs := by
    simp only [Registry.refusing, Indexer.refusing]
    split
    · exact hs
    · exact hR.clear_sound i env s hs
  clear_frame i env s hs j q hji := by
    simp only [Registry.refusing, Indexer.refusing]
    split
    · rfl
    · exact hR.clear_frame i env s hs j q hji
  clear_held i env s hs hnone := by
    simp only [Registry.refusing, Indexer.refusing] at hnone ⊢
    split at hnone
    · cases hnone
    · next hcalls =>
      rw [if_neg hcalls]
      exact hR.clear_held i env s hs hnone

/-- A round of clearings goes on up to the first that fails. The indexers in front of it hold
nothing then, and those behind it hold what they held. -/
theorem Forgets.callUntilFailure (hR : R.Forgets) (env : Surroundings) (is : List R.Slot)
    {facts : σ} (hs : R.sound facts) :
    let o := Scanner.callUntilFailure (fun i => i.clear env) (is.map R.indexer) facts
    R.sound o.1 ∧ ∀ e, o.2 = some e → ∃ front j behind, is = front ++ j :: behind ∧
      (∃ before, R.sound before ∧ ((R.indexer j).clear env before).2 = some e) ∧
      (∀ i ∈ front, i ≠ j → ∀ q, R.held i o.1 q = []) ∧
      ∀ i, i ∉ front → i ≠ j → ∀ q, R.held i o.1 q = R.held i facts q := by
  induction is generalizing facts with
  | nil =>
    refine ⟨hs, fun e he => ?_⟩
    cases he
  | cons i is ih =>
    have hs₁ := hR.clear_sound i env facts hs
    have hframe := hR.clear_frame i env facts hs
    have hempty := hR.clear_held i env facts hs
    simp only [List.map_cons, Scanner.callUntilFailure]
    cases hcall : (R.indexer i).clear env facts with
    | mk facts₁ failure =>
      rw [hcall] at hs₁ hframe hempty
      cases failure with
      | some e =>
        refine ⟨hs₁, fun e' he' => ⟨[], i, is, rfl, ⟨facts, hs, ?_⟩, ?_, ?_⟩⟩
        · rw [hcall]
          exact he'
        · exact fun k hk => absurd hk List.not_mem_nil
        · exact fun k _ hk q => hframe k q hk
      | none =>
        obtain ⟨hs', hstops⟩ := ih hs₁
        refine ⟨hs', fun e he => ?_⟩
        obtain ⟨front, j, behind, his, hfails, hfront, hothers⟩ := hstops e he
        refine ⟨i :: front, j, behind, by rw [his]; rfl, hfails, ?_, ?_⟩
        · intro k hk hkj q
          by_cases hkf : k ∈ front
          · exact hfront k hkf hkj q
          · -- Cleared first, and not called again.
            have hki : k = i := (List.mem_cons.1 hk).resolve_right hkf
            rw [hothers k hkf hkj q, hki]
            exact hempty rfl q
        · intro k hk hkj q
          rw [List.mem_cons, not_or] at hk
          rw [hothers k hk.2 hkj q]
          exact hframe k q hk.1

structure Usable (R : Registry σ) (s : Scanner σ) : Prop where
  indexers : s.indexers = R.indexers
  isOpen : s.hashes.closed = false
  sound : R.sound s.facts

section Calls

variable {s : Scanner σ} {env : Surroundings} {now : Timestamp} {p q : Path}

theorem Usable.map_indexer (h : R.Usable s) : R.order.map R.indexer = s.indexers :=
  h.indexers.symm

theorem Usable.settle (hR : R.Replaces) (hF : R.Forgets) (h : R.Usable s) (env : Surroundings)
    (now : Timestamp) (p : Path) (bytes : List UInt8) :
    R.Usable (Scanner.settle env now s (Scanner.changedTo p bytes)) :=
  ⟨h.indexers, h.isOpen,
    (offer_held hR hF h.indexers env p (Text.decodeLossy bytes) h.sound).1⟩

/-- What a discard leaves: nothing of other files is touched, and if no call fails, nothing of the
discarded ones is left. -/
theorem Usable.discard (hF : R.Forgets) (h : R.Usable s) (env : Surroundings) (ps : List Path) :
    R.Usable (s.discard env ps) ∧
      (∀ i, ∀ q ∉ ps, R.held i (s.discard env ps).facts q = R.held i s.facts q) ∧
      ((Scanner.callEach (fun i => i.removed env ps) s.indexers s.facts).2 = 0 →
        ∀ i ∈ R.order, ∀ q ∈ ps, R.held i (s.discard env ps).facts q = []) := by
  obtain ⟨hsound, hframe, hheld⟩ := hF.callEach env ps R.order h.sound
  rw [h.map_indexer] at hsound hframe hheld
  exact ⟨⟨h.indexers, h.isOpen, hsound⟩, fun i q hq => hframe i q (.inr hq), hheld⟩

theorem Usable.clear (hF : R.Forgets) (h : R.Usable s) (env : Surroundings) :
    R.Usable (s.clearAll env).1 := by
  have hsound := (hF.callUntilFailure env R.order h.sound).1
  rw [h.map_indexer] at hsound
  unfold Scanner.clearAll
  split
  · next hcall =>
    rw [hcall] at hsound
    exact ⟨h.indexers, h.isOpen, hsound⟩
  · next hcall =>
    rw [hcall] at hsound
    rw [HashTable.clear_eq h.isOpen]
    exact ⟨h.indexers, rfl, hsound⟩

theorem usable_invariant (hR : R.Replaces) (hF : R.Forgets) :
    Scanner.Invariant (fun _ _ => True) R.Usable where
  isOpen h := h.isOpen
  settle env now _ p bytes _ h := h.settle hR hF env now p bytes
  discard env _ ps h := (h.discard hF env ps).1
  clear env _ h := h.clear hF env

theorem Opened.usable_after (hR : R.Replaces) (hF : R.Forgets) (h : R.Opened s)
    (history : List (Moment × ScanCall)) :
    R.Usable (s.after history) ∧ s.SameProject (s.after history) ∧
      (s.after history).closed = false := by
  obtain ⟨hstart, hclosed⟩ : R.Usable s ∧ s.closed = false := by
    obtain ⟨files, root, options, facts, hopen, hsound, _⟩ := h
    obtain ⟨canonical, _, rfl⟩ := Scanner.open?_eq_ok hopen
    exact ⟨⟨rfl, rfl, hsound⟩, rfl⟩
  obtain ⟨husable, hsame⟩ := (usable_invariant hR hF).after history
    (fun _ _ _ _ _ _ _ _ => trivial) hstart
  exact ⟨husable, hsame, hsame.closed.trans hclosed⟩

/-- Nothing of a file has changed between two scanners. -/
structure SameAt (R : Registry σ) (q : Path) (s t : Scanner σ) : Prop where
  usable : R.Usable t
  held : ∀ i, R.held i t.facts q = R.held i s.facts q
  record : t.hashes.find? q = s.hashes.find? q

theorem Usable.sameAt (h : R.Usable s) (q : Path) : R.SameAt q s s := ⟨h, fun _ => rfl, rfl⟩

theorem SameAt.trans {t u : Scanner σ} (h : R.SameAt q s t) (k : R.SameAt q t u) :
    R.SameAt q s u :=
  ⟨k.usable, fun i => (k.held i).trans (h.held i), k.record.trans h.record⟩

theorem SameAt.digest? {t : Scanner σ} (h : R.SameAt q s t) :
    t.hashes.digest? q = s.hashes.digest? q := by
  rw [HashTable.digest?, HashTable.digest?, h.record]

theorem Usable.sameAt_settle (hR : R.Replaces) (hF : R.Forgets) (h : R.Usable s)
    (env : Surroundings) (now : Timestamp) (hq : q ≠ p) (bytes : List UInt8) :
    R.SameAt q s (Scanner.settle env now s (Scanner.changedTo p bytes)) := by
  obtain ⟨_, hframe, _⟩ := offer_held hR hF h.indexers env p (Text.decodeLossy bytes) h.sound
  refine ⟨h.settle hR hF env now p bytes, fun i => hframe i q (.inr hq), ?_⟩
  rw [Scanner.find?_settle, if_neg hq]

theorem Usable.sameAt_discard (hF : R.Forgets) (h : R.Usable s) (env : Surroundings)
    {ps : List Path} (hq : q ∉ ps) : R.SameAt q s (s.discard env ps) := by
  obtain ⟨husable, hframe, _⟩ := h.discard hF env ps
  refine ⟨husable, fun i => hframe i q hq, ?_⟩
  exact (HashTable.find?_without s.hashes ps q).trans (if_neg hq)

theorem Usable.sameAt_foldl_settle (hR : R.Replaces) (hF : R.Forgets) {ps : List Path}
    (hq : q ∈ ps → (s.prepare env.files q).digest? = none) {v : Scanner σ} (h : R.Usable v) :
    R.SameAt q v ((s.prepared env.files ps).foldl (Scanner.settle env now) v) := by
  unfold Scanner.prepared
  induction ps generalizing v with
  | nil => exact h.sameAt q
  | cons p ps ih =>
    rw [List.map_cons, List.foldl_cons]
    have hstep : R.SameAt q v (Scanner.settle env now v (p, s.prepare env.files p)) := by
      by_cases hqp : q = p
      · subst hqp
        rw [Scanner.settle_of_digest?_eq_none env now v (hq (List.mem_cons_self ..))]
        exact h.sameAt q
      · rcases Scanner.settle_prepare env now s v p with hsame | ⟨bytes, _, hsettle⟩
        · rw [hsame]
          exact h.sameAt q
        · rw [hsettle]
          exact h.sameAt_settle hR hF env now hqp bytes
    exact hstep.trans (ih (fun hmem => hq (List.mem_cons_of_mem _ hmem)) hstep.usable)

theorem Usable.held_foldl_settle (hR : R.Replaces) (hF : R.Forgets) {ps : List Path}
    {bytes : List UInt8} (hprepare : s.prepare env.files q = (Scanner.changedTo q bytes).2)
    (hq : q ∈ ps) {v : Scanner σ} (h : R.Usable v)
    (hzero : Scanner.settleFailures env now v (s.prepared env.files ps) = 0) {i : R.Slot}
    (hi : i ∈ R.order) (hacc : R.accepts i q) :
    R.held i ((s.prepared env.files ps).foldl (Scanner.settle env now) v).facts q =
      R.extract i q (Text.decodeLossy bytes) := by
  induction ps generalizing v with
  | nil => exact absurd hq List.not_mem_nil
  | cons p ps ih =>
    have hcons : s.prepared env.files (p :: ps) =
        (p, s.prepare env.files p) :: s.prepared env.files ps := rfl
    rw [hcons, Scanner.settleFailures, Nat.add_eq_zero_iff] at hzero
    rw [hcons, List.foldl_cons]
    have husable : R.Usable (Scanner.settle env now v (p, s.prepare env.files p)) := by
      rcases Scanner.settle_prepare env now s v p with hsame | ⟨found, _, hsettle⟩
      · rw [hsame]
        exact h
      · rw [hsettle]
        exact h.settle hR hF env now p found
    -- The last settling of the file decides what is held of it.
    by_cases hlater : q ∈ ps
    · exact ih hlater husable hzero.2
    · have hqp : q = p := (List.mem_cons.1 hq).resolve_right hlater
      subst hqp
      have hrest : R.SameAt q (Scanner.settle env now v (q, s.prepare env.files q))
          ((s.prepared env.files ps).foldl (Scanner.settle env now)
            (Scanner.settle env now v (q, s.prepare env.files q))) :=
        husable.sameAt_foldl_settle hR hF fun hmem => absurd hmem hlater
      rw [hrest.held i, hprepare]
      obtain ⟨_, _, hheld⟩ := offer_held hR hF h.indexers env q (Text.decodeLossy bytes) h.sound
      have hnone : Scanner.failures env v (q, (Scanner.changedTo q bytes).2) = 0 :=
        hprepare ▸ hzero.1
      exact hheld hnone i hi hacc

theorem Usable.sameAt_afterChunk (hR : R.Replaces) (hF : R.Forgets) (h : R.Usable s)
    (env : Surroundings) (now : Timestamp) {ps : List Path} (hq : q ∉ ps) :
    R.SameAt q s (s.afterChunk env now ps) := by
  have hsettled : R.SameAt q s (s.settled env now ps) :=
    h.sameAt_foldl_settle hR hF fun hmem => absurd hmem hq
  unfold Scanner.afterChunk
  split
  · exact hsettled
  · exact hsettled.trans
      (hsettled.usable.sameAt_discard hF env fun hmem => hq (Scanner.mem_leaving.1 hmem).1)

def due (R : Registry σ) (s : Scanner σ) (i : R.Slot) (q : Path) (bytes : List UInt8) :
    List (R.Fact i) :=
  if s.hashes.digest? q = some (Digest.sha256 bytes) then R.held i s.facts q
  else R.extract i q (Text.decodeLossy bytes)

theorem Usable.held_afterChunk (hR : R.Replaces) (hF : R.Forgets) (h : R.Usable s)
    {ps : List Path} (hzero : s.chunkFailures env now ps = 0) {bytes : List UInt8}
    (hfind : env.files.find q = .ok (.file bytes)) (hsmall : bytes.length ≤ s.options.maxFileSize)
    (hq : q ∈ ps) {i : R.Slot} (hi : i ∈ R.order) (hacc : R.accepts i q) :
    R.held i (s.afterChunk env now ps).facts q = R.due s i q bytes := by
  have hprepare := Scanner.prepare_of_find hfind s
  rw [if_neg (Nat.not_lt.2 hsmall), HashTable.hashOf_eq h.isOpen] at hprepare
  have hstays : q ∉ s.leaving env.files ps := by
    rw [Scanner.mem_leaving, hprepare]
    rintro ⟨_, hleaves⟩
    split at hleaves <;> cases hleaves
  have hsettled : R.held i (s.settled env now ps).facts q = R.due s i q bytes := by
    rw [due]
    split
    · next hrecord =>
      have hunchanged : s.prepare env.files q = .unchanged := by
        rw [hprepare, hrecord]
        exact if_pos (by simp [Except.toOption])
      exact (h.sameAt_foldl_settle hR hF fun _ => by rw [hunchanged]; rfl).held i
    · next hdiffers =>
      have hchanged : s.prepare env.files q = (Scanner.changedTo q bytes).2 := by
        rw [hprepare]
        exact if_neg (by simpa [Except.toOption] using hdiffers)
      exact h.held_foldl_settle hR hF hchanged hq (Nat.add_eq_zero_iff.1 hzero).1 hi hacc
  have husable : R.Usable (s.settled env now ps) :=
    (usable_invariant hR hF).settled env now (fun _ _ _ _ => trivial) h
  unfold Scanner.afterChunk
  split
  · exact hsettled
  · exact ((husable.sameAt_discard hF env hstays).held i).trans hsettled

theorem Usable.sameAt_foldl_afterChunk (hR : R.Replaces) (hF : R.Forgets) (env : Surroundings)
    (now : Timestamp) {cs : List (List Path)} (hq : q ∉ cs.flatten) (h : R.Usable s) :
    R.SameAt q s (cs.foldl (Scanner.afterChunk env now) s) := by
  induction cs generalizing s with
  | nil => exact h.sameAt q
  | cons c cs ih =>
    rw [List.flatten_cons, List.mem_append, not_or] at hq
    have hchunk := h.sameAt_afterChunk hR hF env now hq.1
    exact hchunk.trans (ih hq.2 hchunk.usable)

theorem Usable.held_foldl_afterChunk (hR : R.Replaces) (hF : R.Forgets) {cs : List (List Path)}
    (h : R.Usable s) (hzero : Scanner.chunksFailures env now s cs = 0) {bytes : List UInt8}
    (hfind : env.files.find q = .ok (.file bytes)) (hsmall : bytes.length ≤ s.options.maxFileSize)
    (hq : q ∈ cs.flatten) {i : R.Slot} (hi : i ∈ R.order) (hacc : R.accepts i q) :
    R.held i (cs.foldl (Scanner.afterChunk env now) s).facts q = R.due s i q bytes := by
  induction cs generalizing s with
  | nil => exact absurd hq List.not_mem_nil
  | cons c cs ih =>
    obtain ⟨hchunk, hchunks⟩ := Nat.add_eq_zero_iff.1 hzero
    have husable : R.Usable (s.afterChunk env now c) :=
      (usable_invariant hR hF).afterChunk env now (fun _ _ _ _ => trivial) h
    have hoptions := (Scanner.sameProject_afterChunk env now s c).options
    rw [List.flatten_cons, List.mem_append] at hq
    rw [List.foldl_cons]
    by_cases hc : q ∈ c
    · -- Once a chunk has come by the file, its content is recorded.
      have hheld := h.held_afterChunk hR hF hchunk hfind hsmall hc hi hacc
      have hrecord := (Scanner.digest?_afterChunk h.isOpen hchunk q).2 bytes hfind hc
      rw [Scanner.dueDigest?, if_neg (Nat.not_lt.2 hsmall)] at hrecord
      by_cases hlater : q ∈ cs.flatten
      · rw [ih husable hchunks (hoptions ▸ hsmall) hlater, due, if_pos hrecord, hheld]
      · rw [(husable.sameAt_foldl_afterChunk hR hF env now hlater).held i, hheld]
    · have hsame := h.sameAt_afterChunk hR hF env now hc
      rw [ih husable hchunks (hoptions ▸ hsmall) (hq.resolve_left hc), due, due, hsame.digest?,
        hsame.held i]

theorem Usable.sameAt_afterFiles (hR : R.Replaces) (hF : R.Forgets) (h : R.Usable s)
    (env : Surroundings) (now : Timestamp) {ps : List Path} (hq : q ∉ ps) :
    R.SameAt q s (s.afterFiles env now ps) := by
  rw [← flatten_chunksOf (s.options.chunkSize - 1) ps] at hq
  exact h.sameAt_foldl_afterChunk hR hF env now hq

theorem Usable.held_afterFiles (hR : R.Replaces) (hF : R.Forgets) (h : R.Usable s) {ps : List Path}
    (hzero : s.filesFailures env now ps = 0) {bytes : List UInt8}
    (hfind : env.files.find q = .ok (.file bytes)) (hsmall : bytes.length ≤ s.options.maxFileSize)
    (hq : q ∈ ps) {i : R.Slot} (hi : i ∈ R.order) (hacc : R.accepts i q) :
    R.held i (s.afterFiles env now ps).facts q = R.due s i q bytes := by
  rw [← flatten_chunksOf (s.options.chunkSize - 1) ps] at hq
  exact h.held_foldl_afterChunk hR hF hzero hfind hsmall hq hi hacc

theorem Usable.sameAt_trimmed (hF : R.Forgets) (h : R.Usable s) (env : Surroundings)
    (hq : q ∉ s.gone env.files) : R.SameAt q s (s.trimmed env) := by
  unfold Scanner.trimmed
  split
  · exact h.sameAt q
  · exact h.sameAt_discard hF env hq

theorem Usable.held_trimmed (hF : R.Forgets) (h : R.Usable s) (hzero : s.trimFailures env = 0)
    (hq : q ∈ s.gone env.files) {i : R.Slot} (hi : i ∈ R.order) :
    R.held i (s.trimmed env).facts q = [] := by
  rw [Scanner.trimFailures, Scanner.isEmpty_of_mem_gone hq] at hzero
  rw [Scanner.trimmed_of_mem_gone hq]
  exact (h.discard hF env (s.gone env.files)).2.2 hzero i hi q hq

/-- What a full scan without failures leaves for a path it does not come by: nothing if the path was
recorded, and else what there was. -/
theorem Usable.held_of_absent (hR : R.Replaces) (hF : R.Forgets) (h : R.Usable s) {m : Moment}
    {s' : Scanner σ} {r : ScanReport} (hscan : s.indexAll m false = (s', .ok r))
    (hfailed : r.failed = 0) (habsent : ∀ p ∈ s.walk m.files, Path.same q p = false) {i : R.Slot}
    (hi : i ∈ R.order) :
    R.held i s'.facts q = if (s.hashes.find? q).isSome then [] else R.held i s.facts q := by
  obtain ⟨rfl, hsum⟩ := Scanner.indexAll_eq_ok h.isOpen hscan
  have htrim : s.trimFailures ⟨m.files, .scanning true⟩ = 0 :=
    (Nat.add_eq_zero_iff.1 (hsum.symm.trans hfailed)).1
  have hwalk : q ∉ s.walk m.files := by
    intro hq
    have hself : Path.same q q = true := beq_self_eq_true q.components
    exact absurd hself (by simp [habsent q hq])
  have husable := (usable_invariant hR hF).trimmed ⟨m.files, .scanning true⟩ h
  rw [(husable.sameAt_afterFiles hR hF ⟨m.files, .scanning true⟩ m.now hwalk).held i]
  split
  · next hrecord =>
    exact h.held_trimmed hF htrim (Scanner.mem_gone_iff.2 ⟨hrecord, fun p hp _ => habsent p hp⟩) hi
  · next hnone =>
    refine (h.sameAt_trimmed hF ⟨m.files, .scanning true⟩ fun hgone => ?_).held i
    exact hnone (Scanner.mem_gone_iff.1 hgone).1

/-- What a full scan without failures leaves for a file it comes by. One that counts as gone all the
same is indexed anew. -/
theorem Usable.held_of_walked (hR : R.Replaces) (hF : R.Forgets) (h : R.Usable s) {m : Moment}
    {s' : Scanner σ} {r : ScanReport} (hscan : s.indexAll m false = (s', .ok r))
    (hfailed : r.failed = 0) (hq : q ∈ s.walk m.files) {bytes : List UInt8}
    (hfind : m.files.find q = .ok (.file bytes)) (hsmall : bytes.length ≤ s.options.maxFileSize) :
    s'.hashes.digest? q = some (Digest.sha256 bytes) ∧
      ∀ i ∈ R.order, R.accepts i q → R.held i s'.facts q =
        if q ∈ s.gone m.files then R.extract i q (Text.decodeLossy bytes)
        else R.due s i q bytes := by
  obtain ⟨rfl, hsum⟩ := Scanner.indexAll_eq_ok h.isOpen hscan
  have hzero := (Nat.add_eq_zero_iff.1 (hsum.symm.trans hfailed)).2
  have husable := (usable_invariant hR hF).trimmed ⟨m.files, .scanning true⟩ h
  have hsmall' : bytes.length ≤ (s.trimmed ⟨m.files, .scanning true⟩).options.maxFileSize :=
    (Scanner.sameProject_trimmed ⟨m.files, .scanning true⟩ s).options ▸ hsmall
  refine ⟨?_, fun i hi hacc => ?_⟩
  · rw [(Scanner.digest?_afterFiles husable.isOpen hzero q).2 bytes hfind hq,
      Scanner.dueDigest?, if_neg (Nat.not_lt.2 hsmall')]
  · rw [husable.held_afterFiles hR hF hzero hfind hsmall' hq hi hacc]
    split
    · next hgone =>
      rw [due, Scanner.digest?_trimmed_eq, if_pos hgone, if_neg (Option.some_ne_none _).symm]
    · next hstays =>
      have hsame := h.sameAt_trimmed hF ⟨m.files, .scanning true⟩ hstays
      rw [due, due, hsame.digest?, hsame.held i]

end Calls

end Registry
end ProjectIndex
