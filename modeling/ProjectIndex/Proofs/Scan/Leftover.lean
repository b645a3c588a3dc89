import ProjectIndex.Proofs.Scan.Refusal

/-!
What an indexer keeps of a file that is gone. A removal takes the record of a file away whether or
not the indexers gave up its facts, and a full scan asks them to forget only what is recorded. So
the facts that a failed removal leaves behind stay, however many scans follow.
-/
namespace ProjectIndex

variable {σ : Type}

/-- A call by which a path is removed: a full scan that does not come by it although it is recorded,
a scan of files that does not find it, or a removal that names it. -/
def ScanCall.Drops (s : Scanner σ) (m : Moment) (p : Path) : ScanCall → Prop
  | .indexAll force => force = false ∧ p ∈ s.gone m.files ∧ p ∉ s.walk m.files
  | .indexFiles ps => p ∈ s.requested ps ∧ m.files.find p = .error .notFound
  | .removeFiles ps => p ∈ ps.map s.resolve
  | .clearHashes => False

namespace Registry

variable {R : Registry σ} {s : Scanner σ} {p : Path}

theorem Usable.find?_call_of_drops (hR : R.Replaces) (hF : R.Forgets) (h : R.Usable s)
    (hclosed : s.closed = false) {m : Moment} {c : ScanCall} (hdrops : c.Drops s m p) :
    (s.call m c).hashes.find? p = none := by
  cases c with
  | clearHashes => exact absurd hdrops id
  | indexAll force =>
    obtain ⟨rfl, hgone, hwalk⟩ := hdrops
    obtain ⟨r, hsync, _⟩ := Scanner.synchronize_eq h.isOpen ⟨m.files, .scanning true⟩ m.now
    have husable := (usable_invariant hR hF).trimmed ⟨m.files, .scanning true⟩ h
    have htrimmed : (s.trimmed ⟨m.files, .scanning true⟩).hashes.find? p = none :=
      (s.find?_trimmed ⟨m.files, .scanning true⟩ p).trans (if_pos hgone)
    simp only [Scanner.call, Scanner.indexAll, hclosed, Bool.false_eq_true, if_false, hsync]
    have hrecord :=
      (husable.sameAt_afterFiles hR hF ⟨m.files, .scanning true⟩ m.now hwalk).record
    exact hrecord.trans htrimmed
  | indexFiles ps =>
    obtain ⟨hp, hmissing⟩ := hdrops
    obtain ⟨r, hprocess, _⟩ :=
      Scanner.process_eq h.isOpen ⟨m.files, .scanning false⟩ m.now (s.requested ps) {}
    simp only [Scanner.call, Scanner.indexFiles, hclosed, Bool.false_eq_true, if_false, hprocess]
    exact s.find?_afterFiles_of_missing m.now hp hmissing
  | removeFiles ps =>
    simp only [Scanner.call, Scanner.removeFiles, hclosed, Bool.false_eq_true, if_false,
      Scanner.dispatchRemoval_eq h.isOpen]
    exact (HashTable.find?_without _ _ p).trans (if_pos hdrops)

/-- A call that removes a path leaves no record of it, failed or not; and a full scan without
failures, which ends with no facts of an absent path that was recorded, leaves those of any other
absent path as they are. -/
theorem failed_removal_is_final (R : Registry σ) (hR : R.Replaces) (hF : R.Forgets) {s : Scanner σ}
    (hs : R.Opened s) (history : List (Moment × ScanCall)) :
    (∀ m c p, c.Drops (s.after history) m p →
      ((s.after history).call m c).hashes.find? p = none) ∧
    ∀ m s' r, (s.after history).indexAll m false = (s', .ok r) → r.failed = 0 →
      ∀ p, (∀ q ∈ s.walk m.files, Path.same p q = false) → ∀ i ∈ R.order,
        R.held i s'.facts p = if ((s.after history).hashes.find? p).isSome then []
          else R.held i (s.after history).facts p := by
  obtain ⟨husable, hsame, hclosed⟩ := hs.usable_after hR hF history
  refine ⟨fun m c p hdrops => husable.find?_call_of_drops hR hF hclosed hdrops, ?_⟩
  intro m s' r hscan hfailed p habsent i hi
  exact husable.held_of_absent hR hF hscan hfailed (hsame.walk m.files ▸ habsent) hi

/-- The indexer of apps, refusing whatever is asked of it outside full scans. -/
def stubbornApps : Registry (FactStore Extension) :=
  strictApps.refusing fun _ env => env.state != .scanning true

def stubbornScanner : Scanner (FactStore Extension) :=
  { appsScanner with indexers := stubbornApps.indexers }

def emptyProject : FileTree := { root := .dir [("p".toList, .dir [])] }

theorem stubbornApps_replaces : stubbornApps.Replaces := strictApps_replaces.refusing _

theorem stubbornApps_forgets : stubbornApps.Forgets :=
  (FactStore.registry_drops.forgets).refusing _

theorem stubbornScanner_opened : stubbornApps.Opened stubbornScanner :=
  ⟨projectWith "", .ofString "/p", {}, .new "apps", rfl, rfl, fun _ _ _ => rfl⟩

/-- A manifest is indexed and deleted, and its removal refused: no record is left, and the next full
scan, in which nothing fails, leaves its app as it is. -/
theorem failed_removal_is_final_manifest :
    let history : List (Moment × ScanCall) :=
      [(⟨projectWith "<manifest><meta><name>A</name></meta></manifest>", ⟨0, 0⟩⟩, .indexAll false)]
    let removal : Moment × ScanCall := (⟨emptyProject, ⟨1, 0⟩⟩, .indexFiles [manifestPath])
    let t := stubbornScanner.after (history ++ [removal])
    t.hashes.find? manifestPath = none ∧
      ∃ u r, t.indexAll ⟨emptyProject, ⟨2, 0⟩⟩ false = (u, .ok r) ∧ r.failed = 0 ∧
        stubbornApps.held () u.facts manifestPath =
          stubbornApps.held () t.facts manifestPath := by
  intro history removal t
  have hrecord : t.hashes.find? manifestPath = none := by
    refine (failed_removal_is_final stubbornApps stubbornApps_replaces stubbornApps_forgets
      stubbornScanner_opened history).1 ⟨emptyProject, ⟨1, 0⟩⟩ (.indexFiles [manifestPath])
      manifestPath ⟨?_, rfl⟩
    decide +kernel
  have hscan : t.indexAll ⟨emptyProject, ⟨2, 0⟩⟩ false =
      ((t.indexAll ⟨emptyProject, ⟨2, 0⟩⟩ false).1, .ok {}) := Prod.ext rfl (by decide +kernel)
  have hwalk : stubbornScanner.walk emptyProject = [] := by decide +kernel
  have hheld := (failed_removal_is_final stubbornApps stubbornApps_replaces stubbornApps_forgets
    stubbornScanner_opened (history ++ [removal])).2 _ _ _ hscan rfl manifestPath
    (fun q hq => absurd (hwalk ▸ hq) List.not_mem_nil) () (List.mem_singleton_self ())
  have hnone : ¬ (t.hashes.find? manifestPath).isSome = true := by simp [hrecord]
  exact ⟨hrecord, _, _, hscan, rfl, hheld.trans (if_neg hnone)⟩

/-- What a refused removal leaves is not removed later. -/
theorem refused_removal_is_not_retried :
    let s := stubbornScanner.after
      [(⟨projectWith "<manifest><meta><name>A</name></meta></manifest>", ⟨0, 0⟩⟩, .indexAll false)]
    ∃ t r u, s.removeFiles ⟨emptyProject, ⟨1, 0⟩⟩ [manifestPath] = (t, .ok r) ∧ r.failed = 1 ∧
      t.indexAll ⟨emptyProject, ⟨2, 0⟩⟩ false = (u, .ok {}) ∧
      emptyProject.doesExist manifestPath = false ∧
      stubbornApps.held () u.facts manifestPath ≠ [] := by
  intro s
  refine ⟨_, { removed := 1, failed := 1 }, _, Prod.ext rfl ?_, rfl, Prod.ext rfl ?_, ?_, ?_⟩
  · decide +kernel
  · decide +kernel
  · decide +kernel
  · decide +kernel

end Registry
end ProjectIndex
