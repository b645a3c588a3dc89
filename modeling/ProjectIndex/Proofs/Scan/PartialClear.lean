import ProjectIndex.Proofs.Scan.Refusal

/-!
What a clearing that fails half way leaves behind. The indexers are cleared one after the other and
the records last, so that a failure leaves records of files whose facts the indexers in front of it
have lost. The next full scan takes these files for unchanged.
-/
namespace ProjectIndex.Registry

variable {σ τ : Type} {R : Registry σ} {s t : Scanner σ} {e : Failure}

/-- Every recorded file has the recorded digest, and every indexer that accepts it holds its
facts. -/
def InStep (R : Registry σ) (s : Scanner σ) (files : FileTree) : Prop :=
  ∀ p hash, s.hashes.digest? p = some hash → ∃ bytes, files.find p = .ok (.file bytes) ∧
    hash = Digest.sha256 bytes ∧ ∀ i ∈ R.order, R.accepts i p →
      R.held i s.facts p = R.extract i p (Text.decodeLossy bytes)

/-- A failed clearing stops at one indexer: those in front of it have lost everything, those behind
it nothing, and all records are kept. -/
structure StoppedAt (R : Registry σ) (s t : Scanner σ) (e : Failure) (front : List R.Slot)
    (j : R.Slot) (behind : List R.Slot) : Prop where
  order : R.order = front ++ j :: behind
  refused : ∃ env facts, R.sound facts ∧ ((R.indexer j).clear env facts).2 = some e
  usable : R.Usable t
  project : s.SameProject t
  records : t.hashes = s.hashes
  lost : ∀ i ∈ front, i ≠ j → ∀ q, R.held i t.facts q = []
  kept : ∀ i, i ∉ front → i ≠ j → ∀ q, R.held i t.facts q = R.held i s.facts q

theorem Usable.stoppedAt (hF : R.Forgets) (h : R.Usable s) {env : Surroundings}
    (hclear : s.clearAll env = (t, .error e)) :
    ∃ front j behind, R.StoppedAt s t e front j behind := by
  have hstops := (hF.callUntilFailure env R.order h.sound).2
  rw [h.map_indexer] at hstops
  have husable := h.clear hF env
  have hsame := s.sameProject_clearAll env
  rw [hclear] at husable hsame
  unfold Scanner.clearAll at hclear
  split at hclear
  · next facts failure hcall =>
    cases hclear
    rw [hcall] at hstops
    obtain ⟨front, j, behind, horder, ⟨before, hbefore, hfails⟩, hlost, hkept⟩ := hstops e rfl
    exact ⟨front, j, behind, horder, ⟨env, before, hbefore, hfails⟩, husable, hsame, rfl, hlost,
      hkept⟩
  · rw [HashTable.clear_eq h.isOpen] at hclear
    cases hclear

theorem Usable.clearAll_of_error (hF : R.Forgets) (h : R.Usable s) (hclosed : s.closed = false)
    {m : Moment} (hcall : s.clearHashes m = (t, .error e) ∨ s.indexAll m true = (t, .error e)) :
    ∃ env, s.clearAll env = (t, .error e) := by
  rcases hcall with hforget | hforced
  · rw [Scanner.clearHashes, hclosed] at hforget
    exact ⟨_, hforget⟩
  · have husable := h.clear hF ⟨m.files, .scanning true⟩
    rw [Scanner.indexAll, hclosed] at hforced
    simp only [Bool.false_eq_true, if_false, if_true] at hforced
    split at hforced
    · next hclear =>
      cases hforced
      exact ⟨_, hclear⟩
    · next v hclear =>
      -- A scan behind a clearing does not fail.
      rw [hclear] at husable
      obtain ⟨r, hsync, _⟩ :=
        Scanner.synchronize_eq husable.isOpen ⟨m.files, .scanning true⟩ m.now
      rw [hsync] at hforced
      cases hforced

/-- After a clearing that failed and a full scan that did not, every file that changed in between is
indexed anew. Of a file that did not and whose path is text, the indexers in front of the failure hold
nothing, and those behind it hold its facts. -/
theorem failed_clear_loses_facts (R : Registry σ) (hR : R.Replaces) (hF : R.Forgets)
    {s₀ : Scanner σ} (hs : R.Opened s₀) (history : List (Moment × ScanCall))
    {files : FileTree} (hstep : R.InStep (s₀.after history) files) {m₁ m₂ : Moment}
    {t : Scanner σ} {e : Failure}
    (hclear : (s₀.after history).clearHashes m₁ = (t, .error e) ∨
      (s₀.after history).indexAll m₁ true = (t, .error e))
    {u : Scanner σ} {r : ScanReport} (hscan : t.indexAll m₂ false = (u, .ok r))
    (hfailed : r.failed = 0)
    (hdigests : ∀ p bytes bytes', files.find p = .ok (.file bytes) →
      m₂.files.find p = .ok (.file bytes') → Digest.sha256 bytes = Digest.sha256 bytes' →
      bytes = bytes') :
    ∃ front j behind, R.StoppedAt (s₀.after history) t e front j behind ∧
      ∀ p bytes, p ∈ s₀.walk m₂.files → m₂.files.find p = .ok (.file bytes) →
        bytes.length ≤ s₀.options.maxFileSize →
        u.hashes.digest? p = some (Digest.sha256 bytes) ∧ ∀ i ∈ R.order, R.accepts i p →
          ((s₀.after history).hashes.digest? p ≠ some (Digest.sha256 bytes) →
            R.held i u.facts p = R.extract i p (Text.decodeLossy bytes)) ∧
          ((s₀.after history).hashes.digest? p = some (Digest.sha256 bytes) →
            m₂.files.isText p = true → i ≠ j →
            (i ∈ front → R.held i u.facts p = []) ∧
            (i ∉ front → R.held i u.facts p = R.extract i p (Text.decodeLossy bytes))) := by
  obtain ⟨husable, hsame, hclosed⟩ := hs.usable_after hR hF history
  obtain ⟨env, hfails⟩ := husable.clearAll_of_error hF hclosed hclear
  obtain ⟨front, j, behind, hstopped⟩ := husable.stoppedAt hF hfails
  have hproject := hsame.trans hstopped.project
  refine ⟨front, j, behind, hstopped, fun p bytes hp hfind hsmall => ?_⟩
  obtain ⟨hdigest, hheld⟩ := hstopped.usable.held_of_walked hR hF hscan hfailed
    (hproject.walk m₂.files ▸ hp) hfind (hproject.options ▸ hsmall)
  refine ⟨hdigest, fun i hi hacc => ⟨fun hdiffers => ?_, fun hrecord htext hij => ?_⟩⟩
  · rw [hheld i hi hacc, due, hstopped.records, if_neg hdiffers, ite_self]
  · -- A walked text is not gone, so the scan leaves an unchanged file as the clearing left it.
    have hstays : p ∉ t.gone m₂.files :=
      Scanner.notMem_gone (hproject.walk m₂.files ▸ hp) htext
    have hold : R.held i u.facts p = R.held i t.facts p := by
      rw [hheld i hi hacc, if_neg hstays, due, hstopped.records, if_pos hrecord]
    refine ⟨fun hfront => hold.trans (hstopped.lost i hfront hij p), fun hbehind => ?_⟩
    obtain ⟨bytes', hfind', hhash, hfacts⟩ := hstep p _ hrecord
    rw [hold, hstopped.kept i hbehind hij p, hfacts i hi hacc,
      hdigests p bytes' bytes hfind' hfind hhash.symm]

def both (R : Registry σ) (R' : Registry τ) : Registry (σ × τ) where
  Slot := R.Slot ⊕ R'.Slot
  order := R.order.map .inl ++ R'.order.map .inr
  indexer
    | .inl i => (R.indexer i).onPart Prod.fst fun a s => (a, s.2)
    | .inr i => (R'.indexer i).onPart Prod.snd fun b s => (s.1, b)
  Fact
    | .inl i => R.Fact i
    | .inr i => R'.Fact i
  held
    | .inl i, s => R.held i s.1
    | .inr i, s => R'.held i s.2
  extract
    | .inl i => R.extract i
    | .inr i => R'.extract i
  sound s := R.sound s.1 ∧ R'.sound s.2

theorem Replaces.both {R' : Registry τ} (hR : R.Replaces) (hR' : R'.Replaces) :
    (R.both R').Replaces where
  sound i env p tree src s hs := by
    rcases i with i | i
    · exact ⟨hR.sound i env p tree src s.1 hs.1, hs.2⟩
    · exact ⟨hs.1, hR'.sound i env p tree src s.2 hs.2⟩
  frame i env p tree src s hs j q hjq := by
    rcases i with i | i <;> rcases j with j | j
    · exact hR.frame i env p tree src s.1 hs.1 j q (hjq.imp_left fun h hji => h (hji ▸ rfl))
    · rfl
    · rfl
    · exact hR'.frame i env p tree src s.2 hs.2 j q (hjq.imp_left fun h hji => h (hji ▸ rfl))
  held i env p tree src s hs hacc htree hnone := by
    rcases i with i | i
    · exact hR.held i env p tree src s.1 hs.1 hacc htree hnone
    · exact hR'.held i env p tree src s.2 hs.2 hacc htree hnone
  unparsed i p src e herror := by
    rcases i with i | i
    · exact hR.unparsed i p src e herror
    · exact hR'.unparsed i p src e herror

theorem Forgets.both {R' : Registry τ} (hR : R.Forgets) (hR' : R'.Forgets) :
    (R.both R').Forgets where
  removed_sound i env ps s hs := by
    rcases i with i | i
    · exact ⟨hR.removed_sound i env ps s.1 hs.1, hs.2⟩
    · exact ⟨hs.1, hR'.removed_sound i env ps s.2 hs.2⟩
  removed_frame i env ps s hs j q hjq := by
    rcases i with i | i <;> rcases j with j | j
    · exact hR.removed_frame i env ps s.1 hs.1 j q (hjq.imp_left fun h hji => h (hji ▸ rfl))
    · rfl
    · rfl
    · exact hR'.removed_frame i env ps s.2 hs.2 j q (hjq.imp_left fun h hji => h (hji ▸ rfl))
  removed_held i env ps s hs hnone := by
    rcases i with i | i
    · exact hR.removed_held i env ps s.1 hs.1 hnone
    · exact hR'.removed_held i env ps s.2 hs.2 hnone
  clear_sound i env s hs := by
    rcases i with i | i
    · exact ⟨hR.clear_sound i env s.1 hs.1, hs.2⟩
    · exact ⟨hs.1, hR'.clear_sound i env s.2 hs.2⟩
  clear_frame i env s hs j q hji := by
    rcases i with i | i <;> rcases j with j | j
    · exact hR.clear_frame i env s.1 hs.1 j q fun h => hji (h ▸ rfl)
    · rfl
    · rfl
    · exact hR'.clear_frame i env s.2 hs.2 j q fun h => hji (h ▸ rfl)
  clear_held i env s hs hnone := by
    rcases i with i | i
    · exact hR.clear_held i env s.1 hs.1 hnone
    · exact hR'.clear_held i env s.2 hs.2 hnone

/-- Two indexers of apps, of which the second refuses to be cleared while nothing is scanned. -/
def pairedApps : Registry (FactStore Extension × FactStore Extension) :=
  (strictApps.both strictApps).refusing fun i env => i.isRight && env.state == .idle

def pairedScanner : Scanner (FactStore Extension × FactStore Extension) :=
  ⟨.ofString "/p", {}, pairedApps.indexers, .new, (.new "apps", .new "copies"), false⟩

theorem pairedApps_replaces : pairedApps.Replaces :=
  (strictApps_replaces.both strictApps_replaces).refusing _

theorem pairedApps_forgets : pairedApps.Forgets :=
  (FactStore.registry_drops.forgets.both FactStore.registry_drops.forgets).refusing _

theorem pairedScanner_opened : pairedApps.Opened pairedScanner := by
  refine ⟨projectWith "", .ofString "/p", {}, (.new "apps", .new "copies"), rfl, ⟨rfl, rfl⟩, ?_⟩
  rintro (i | i) _ p <;> rfl

theorem pairedApps_stoppedAt {s t : Scanner (FactStore Extension × FactStore Extension)}
    {e : Failure} {front behind : List pairedApps.Slot} {j : pairedApps.Slot}
    (h : pairedApps.StoppedAt s t e front j behind) : .inl () ∈ front ∧ j = .inr () := by
  obtain ⟨env, facts, hsound, hfails⟩ := h.refused
  have horder : [.inl (), .inr ()] = front ++ j :: behind := h.order
  rcases j with j | j
  · have hopen : facts.1.closed = false := hsound.1
    have hcleared : ((pairedApps.indexer (.inl j)).clear env facts).2 = none :=
      FactStore.registry_drops.clear_ok () env facts.1 hopen
    rw [hcleared] at hfails
    cases hfails
  · cases front with
    | nil => cases horder
    | cons i front =>
      obtain ⟨hi, -⟩ := List.cons.inj horder
      exact ⟨List.mem_cons.2 (.inl hi), rfl⟩

def indexedProject : FileTree := projectWith "<manifest><meta><name>A</name></meta></manifest>"

def indexedScanner : Scanner (FactStore Extension × FactStore Extension) :=
  pairedScanner.after [(⟨indexedProject, ⟨0, 0⟩⟩, .indexAll false)]

def halfCleared : Scanner (FactStore Extension × FactStore Extension) :=
  (indexedScanner.clearHashes ⟨indexedProject, ⟨1, 0⟩⟩).1

theorem clearHashes_indexedScanner :
    indexedScanner.clearHashes ⟨indexedProject, ⟨1, 0⟩⟩ = (halfCleared, .error .serialization) :=
  Prod.ext rfl (by decide +kernel)

def rescanned : Scanner (FactStore Extension × FactStore Extension) :=
  (halfCleared.indexAll ⟨indexedProject, ⟨2, 0⟩⟩ false).1

-- One evaluation for the report and what the scan leaves.
theorem rescanned_evaluates :
    (halfCleared.indexAll ⟨indexedProject, ⟨2, 0⟩⟩ false).2 = .ok { seen := 1, unchanged := 1 } ∧
      (rescanned.hashes.find? manifestPath).isSome ∧
      pairedApps.held (.inl ()) rescanned.facts manifestPath = [] := by
  decide +kernel

theorem indexAll_halfCleared : halfCleared.indexAll ⟨indexedProject, ⟨2, 0⟩⟩ false =
    (rescanned, .ok { seen := 1, unchanged := 1 }) :=
  Prod.ext rfl rescanned_evaluates.1

theorem manifestPath_mem_walk : manifestPath ∈ pairedScanner.walk indexedProject := by
  decide +kernel

theorem indexedScanner_manifest :
    indexedScanner.hashes.digest? manifestPath =
        some (Digest.sha256 "<manifest><meta><name>A</name></meta></manifest>".toUTF8.toList) ∧
      ∀ i ∈ pairedApps.order, pairedApps.accepts i manifestPath →
        pairedApps.held i indexedScanner.facts manifestPath = pairedApps.extract i manifestPath
          (Text.decodeLossy "<manifest><meta><name>A</name></meta></manifest>".toUTF8.toList) := by
  have hscan : pairedScanner.indexAll ⟨indexedProject, ⟨0, 0⟩⟩ false =
      (indexedScanner, .ok { seen := 1, indexed := 1 }) := Prod.ext rfl (by decide +kernel)
  obtain ⟨husable, -⟩ := pairedScanner_opened.usable_after pairedApps_replaces pairedApps_forgets []
  obtain ⟨hdigest, hheld⟩ := husable.held_of_walked pairedApps_replaces pairedApps_forgets hscan rfl
    manifestPath_mem_walk rfl (by decide +kernel)
  exact ⟨hdigest, fun i hi hacc => (hheld i hi hacc).trans (ite_self _)⟩

theorem indexedScanner_inStep : pairedApps.InStep indexedScanner indexedProject := by
  obtain ⟨hdigest, hheld⟩ := indexedScanner_manifest
  have hpaths : indexedScanner.hashes.files.map TrackedFile.path = [manifestPath] := by
    decide +kernel
  intro p hash hrecord
  have hp : p = manifestPath := by
    rw [← List.mem_singleton, ← hpaths, HashTable.mem_paths_iff]
    obtain ⟨f, hf, -⟩ := Option.map_eq_some_iff.1 hrecord
    rw [hf]
    rfl
  subst hp
  exact ⟨_, rfl, Option.some.inj (hrecord.symm.trans hdigest), hheld⟩

/-- A manifest is indexed, and the second indexer refuses to be cleared: after a full scan without
failures the first one holds nothing. -/
theorem failed_clear_loses_facts_manifest :
    ∃ t u, indexedScanner.clearHashes ⟨indexedProject, ⟨1, 0⟩⟩ = (t, .error .serialization) ∧
      t.indexAll ⟨indexedProject, ⟨2, 0⟩⟩ false = (u, .ok { seen := 1, unchanged := 1 }) ∧
      pairedApps.held (.inl ()) u.facts manifestPath = [] := by
  refine ⟨_, _, clearHashes_indexedScanner, indexAll_halfCleared, ?_⟩
  obtain ⟨front, j, behind, hstopped, hfile⟩ := failed_clear_loses_facts pairedApps
    pairedApps_replaces pairedApps_forgets pairedScanner_opened
    [(⟨indexedProject, ⟨0, 0⟩⟩, .indexAll false)] indexedScanner_inStep
    (.inl clearHashes_indexedScanner) indexAll_halfCleared rfl (by
      intro p bytes bytes' hbytes hbytes' _
      cases hbytes.symm.trans hbytes'
      rfl)
  obtain ⟨hfront, rfl⟩ := pairedApps_stoppedAt hstopped
  obtain ⟨-, hheld⟩ := hfile manifestPath _ manifestPath_mem_walk rfl (by decide +kernel)
  obtain ⟨-, hunchanged⟩ := hheld (.inl ()) List.mem_cons_self rfl
  exact (hunchanged indexedScanner_manifest.1 (by decide) Sum.inl_ne_inr).1 hfront

/-- What the clearing took from the first indexer is not indexed anew. -/
theorem clear_refused_half_way :
    ∃ t u, pairedApps.InStep indexedScanner indexedProject ∧
      indexedScanner.clearHashes ⟨indexedProject, ⟨1, 0⟩⟩ = (t, .error .serialization) ∧
      t.indexAll ⟨indexedProject, ⟨2, 0⟩⟩ false = (u, .ok { seen := 1, unchanged := 1 }) ∧
      (u.hashes.find? manifestPath).isSome ∧ pairedApps.accepts (.inl ()) manifestPath ∧
      pairedApps.held (.inl ()) u.facts manifestPath = [] ∧
      pairedApps.extract (.inl ()) manifestPath
        "<manifest><meta><name>A</name></meta></manifest>".toList ≠ [] := by
  obtain ⟨-, hrecorded, hlost⟩ := rescanned_evaluates
  refine ⟨_, _, indexedScanner_inStep, clearHashes_indexedScanner, indexAll_halfCleared, hrecorded,
    rfl, hlost, ?_⟩
  decide +kernel

end ProjectIndex.Registry
