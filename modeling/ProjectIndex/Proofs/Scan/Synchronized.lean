import ProjectIndex.Domain.Extensions
import ProjectIndex.Proofs.Scan.Invariant
import ProjectIndex.Proofs.Scan.StoreIndexer

/-!
Records and facts stay in step. Where a file is recorded with a digest, every indexer that accepts
it holds the facts of a content with that digest, and no indexer holds facts of a file without a
record. This survives every history of calls, whatever files come, change and go between the calls
and wherever the indexers fail.
-/
namespace ProjectIndex.Registry

variable {σ : Type} {R : Registry σ}

theorem offer_held (hR : R.Replaces) (hF : R.Forgets) {s : Scanner σ}
    (hindexers : s.indexers = R.indexers) (env : Surroundings) (p : Path) (src : Source)
    {facts : σ} (hs : R.sound facts) :
    let o := s.offer env p src (parsePath p src) facts
    R.sound o.1 ∧
      (∀ j q, ¬ (j ∈ R.order ∧ R.accepts j p) ∨ q ≠ p → R.held j o.1 q = R.held j facts q) ∧
      (o.2 = 0 → ∀ i ∈ R.order, R.accepts i p → R.held i o.1 p = R.extract i p src) := by
  have haccepting : s.indexers.filter (fun i => i.accepts p) =
      (R.order.filter fun i => (R.indexer i).accepts p).map R.indexer := by
    rw [hindexers, indexers, List.filter_map]
    rfl
  have hmem : ∀ j, j ∈ R.order.filter (fun i => (R.indexer i).accepts p) ↔
      j ∈ R.order ∧ R.accepts j p := fun j => List.mem_filter
  unfold Scanner.offer
  rw [haccepting]
  cases htree : parsePath p src with
  | ok tree =>
    obtain ⟨hsound, hframe, hheld⟩ := hR.callEach env htree
      (R.order.filter fun i => (R.indexer i).accepts p) (fun i hi => ((hmem i).1 hi).2) hs
    refine ⟨hsound, fun j q hjq => hframe j q ?_, fun hzero i hi hacc => ?_⟩
    · exact hjq.imp_left fun h hj => h ((hmem j).1 hj)
    · exact hheld hzero i ((hmem i).2 ⟨hi, hacc⟩)
  | error e =>
    obtain ⟨hsound, hframe, hheld⟩ := hF.callEach env [p]
      (R.order.filter fun i => (R.indexer i).accepts p) hs
    refine ⟨hsound, fun j q hjq => hframe j q ?_, fun hzero i hi hacc => ?_⟩
    · exact hjq.imp (fun h hj => h ((hmem j).1 hj)) fun h hq => h (List.mem_singleton.1 hq)
    · rw [hR.unparsed i p src e htree]
      exact hheld hzero i ((hmem i).2 ⟨hi, hacc⟩) p (List.mem_singleton_self p)

/-- A scanner whose facts are in step with its records. `found` tells the contents that a path has
had. -/
structure Synchronized (R : Registry σ) (found : Path → List UInt8 → Prop) (s : Scanner σ) :
    Prop where
  indexers : s.indexers = R.indexers
  isOpen : s.hashes.closed = false
  sound : R.sound s.facts
  inStep : ∀ p f, s.hashes.find? p = some f → f.contentHash ≠ retryHash →
    ∃ bytes, found p bytes ∧ Digest.sha256 bytes = f.contentHash ∧
      ∀ i ∈ R.order, R.accepts i p →
        R.held i s.facts p = R.extract i p (Text.decodeLossy bytes)
  tracked : ∀ i ∈ R.order, ∀ p, R.held i s.facts p ≠ [] →
    R.accepts i p ∧ ∃ f, s.hashes.find? p = some f

variable {found : Path → List UInt8 → Prop}

theorem Synchronized.settle (hR : R.Replaces) (hD : R.Drops) (env : Surroundings) (now : Timestamp)
    {s : Scanner σ} {p : Path} {bytes : List UInt8} (hfound : found p bytes)
    (h : R.Synchronized found s) :
    R.Synchronized found (Scanner.settle env now s (Scanner.changedTo p bytes)) := by
  obtain ⟨hsound, hframe, hheld⟩ :=
    offer_held hR hD.forgets h.indexers env p (Text.decodeLossy bytes) h.sound
  have hrecord := Scanner.find?_settle env now s p bytes
  refine ⟨h.indexers, h.isOpen, hsound, fun q f hq hdigest => ?_, fun i hi q hne => ?_⟩
  · rw [hrecord q] at hq
    by_cases hqp : q = p
    · rw [if_pos hqp, Option.some.injEq] at hq
      subst hqp
      subst hq
      -- Where a call failed the file is marked, and nothing is said of its facts.
      split at hdigest
      · next hzero => exact ⟨bytes, hfound, (if_pos hzero).symm, hheld hzero⟩
      · exact absurd rfl hdigest
    · rw [if_neg hqp] at hq
      obtain ⟨b, hb, hhash, hfacts⟩ := h.inStep q f hq hdigest
      refine ⟨b, hb, hhash, fun i hi hacc => ?_⟩
      exact (hframe i q (.inr hqp)).trans (hfacts i hi hacc)
  · rw [hrecord q]
    by_cases hqp : q = p
    · rw [if_pos hqp]
      refine ⟨?_, _, rfl⟩
      by_contra hacc
      subst hqp
      apply hacc
      apply (h.tracked i hi q _).1
      rwa [← hframe i q (.inl fun hj => hacc hj.2)]
    · rw [if_neg hqp]
      apply h.tracked i hi q
      rwa [← hframe i q (.inr hqp)]

theorem Synchronized.discard (hD : R.Drops) (env : Surroundings) {s : Scanner σ} (ps : List Path)
    (h : R.Synchronized found s) : R.Synchronized found (s.discard env ps) := by
  obtain ⟨hsound, _, hframe, hheld⟩ := hD.callEach env ps R.order h.sound
  have hfacts : (s.discard env ps).facts =
      (Scanner.callEach (fun i => i.removed env ps) (R.order.map R.indexer) s.facts).1 := by
    rw [Scanner.discard, h.indexers]
    rfl
  have hrecord : ∀ q, (s.discard env ps).hashes.find? q =
      if q ∈ ps then none else s.hashes.find? q := HashTable.find?_without s.hashes ps
  refine ⟨h.indexers, h.isOpen, hfacts ▸ hsound, fun q f hq hdigest => ?_, fun i hi q hne => ?_⟩
  · rw [hrecord q] at hq
    by_cases hps : q ∈ ps
    · simp [hps] at hq
    · rw [if_neg hps] at hq
      obtain ⟨b, hb, hhash, hold⟩ := h.inStep q f hq hdigest
      refine ⟨b, hb, hhash, fun i hi hacc => ?_⟩
      rw [hfacts, hframe i q (.inr hps)]
      exact hold i hi hacc
  · rw [hfacts] at hne
    have hps : q ∉ ps := fun hq => hne (hheld i hi q hq)
    rw [hrecord q, if_neg hps]
    apply h.tracked i hi q
    rwa [hframe i q (.inr hps)] at hne

theorem clearAll_eq (hD : R.Drops) (env : Surroundings) {s : Scanner σ}
    (hindexers : s.indexers = R.indexers) (hopen : s.hashes.closed = false)
    (hs : R.sound s.facts) :
    ∃ facts, s.clearAll env = ({ s with facts, hashes := .new }, .ok ()) ∧ R.sound facts ∧
      ∀ i ∈ R.order, ∀ q, R.held i facts q = [] := by
  obtain ⟨hsound, hnone, _, hheld⟩ := hD.callUntilFailure env R.order hs
  unfold Scanner.clearAll
  rw [hindexers, indexers]
  cases hres : Scanner.callUntilFailure (fun i => i.clear env) (R.order.map R.indexer) s.facts with
  | mk facts failure =>
    rw [hres] at hsound hnone hheld
    cases hnone
    dsimp only
    rw [HashTable.clear_eq hopen]
    exact ⟨facts, rfl, hsound, hheld⟩

theorem Synchronized.clear (hD : R.Drops) (env : Surroundings) {s : Scanner σ}
    (h : R.Synchronized found s) : R.Synchronized found (s.clearAll env).1 := by
  obtain ⟨facts, hclear, hsound, hheld⟩ := clearAll_eq hD env h.indexers h.isOpen h.sound
  rw [hclear]
  refine ⟨h.indexers, rfl, hsound, fun q f hq => ?_, fun i hi q hne => ?_⟩
  · simp [HashTable.find?_new] at hq
  · exact absurd (hheld i hi q) hne

theorem synchronized_invariant (hR : R.Replaces) (hD : R.Drops) :
    Scanner.Invariant found (R.Synchronized found) where
  isOpen h := h.isOpen
  settle env now _ _ _ hfound h := h.settle hR hD env now hfound
  discard env _ ps h := h.discard hD env ps
  clear env _ h := h.clear hD env

def Opened (R : Registry σ) (s : Scanner σ) : Prop :=
  ∃ files root options facts, Scanner.open? files root options R.indexers .new facts = .ok s ∧
    R.sound facts ∧ ∀ i ∈ R.order, ∀ p, R.held i facts p = []

theorem Opened.synchronized {s : Scanner σ} (h : R.Opened s) : R.Synchronized found s := by
  obtain ⟨files, root, options, facts, hopen, hsound, hempty⟩ := h
  obtain ⟨canonical, _, rfl⟩ := Scanner.open?_eq_ok hopen
  refine ⟨rfl, rfl, hsound, fun q f hq => ?_, fun i hi q hne => ?_⟩
  · exact absurd ((HashTable.find?_new q).symm.trans hq) (by simp)
  · exact absurd (hempty i hi q) hne

def contentsIn (history : List (Moment × ScanCall)) (p : Path) (bytes : List UInt8) : Prop :=
  ∃ c ∈ history, c.1.files.find p = .ok (.file bytes)

theorem Opened.synchronized_after (hR : R.Replaces) (hD : R.Drops) {s : Scanner σ} (hs : R.Opened s)
    (history : List (Moment × ScanCall)) :
    R.Synchronized (contentsIn history) (s.after history) :=
  ((synchronized_invariant hR hD).after history
    (fun c hc _ _ _ _ _ hfind => ⟨c, hc, hfind⟩) hs.synchronized).1

/-- An indexer of apps that fails on a manifest without one. -/
def strictApps : Registry (FactStore Extension) :=
  FactStore.registry "apps" Extensions.accepts
    (fun _ p tree src =>
      if (Extensions.extract tree src p).isEmpty then .error .serialization
      else .ok (Extensions.extract tree src p))
    fun p tree src => Extensions.extract tree src p

theorem strictApps_replaces : strictApps.Replaces := by
  refine FactStore.registry_replaces fun files p tree src fs h => ?_
  split at h
  · cases h
  · exact (Except.ok.inj h).symm

def manifestPath : Path := .ofString "/p/manifest.xml"

def projectWith (manifest : String) : FileTree :=
  { root := .dir [("p".toList, .dir [("manifest.xml".toList, .file manifest.toUTF8.toList)])] }

def appsScanner : Scanner (FactStore Extension) :=
  ⟨.ofString "/p", {}, strictApps.indexers, .new, .new "apps", false⟩

/-- A manifest is indexed, loses its app, and gets it back. -/
def manifestHistory : List (Moment × ScanCall) :=
  [(⟨projectWith "<manifest><meta><name>A</name></meta></manifest>", ⟨0, 0⟩⟩, .indexAll false),
    (⟨projectWith "<manifest/>", ⟨1, 0⟩⟩, .indexFiles [manifestPath]),
    (⟨projectWith "<manifest><meta><name>A</name></meta></manifest>", ⟨2, 0⟩⟩, .indexAll false)]

theorem appsScanner_opened : strictApps.Opened appsScanner :=
  ⟨projectWith "", .ofString "/p", {}, .new "apps", rfl, rfl, fun _ _ _ => rfl⟩

/-- After every history of calls, a file that is recorded with a digest has, with every indexer that
accepts it, the facts of a content with that digest that the file has had; and every file with facts
has a record. -/
theorem facts_follow_records (R : Registry σ) (hR : R.Replaces) (hD : R.Drops) {s : Scanner σ}
    (hs : R.Opened s) (history : List (Moment × ScanCall)) :
    (∀ p f, (s.after history).hashes.find? p = some f → f.contentHash ≠ retryHash →
      ∃ bytes, contentsIn history p bytes ∧ Digest.sha256 bytes = f.contentHash ∧
        ∀ i ∈ R.order, R.accepts i p →
          R.held i (s.after history).facts p = R.extract i p (Text.decodeLossy bytes)) ∧
      ∀ i ∈ R.order, ∀ p, R.held i (s.after history).facts p ≠ [] →
        ∃ f, (s.after history).hashes.find? p = some f := by
  have h := hs.synchronized_after hR hD history
  exact ⟨h.inStep, fun i hi p hne => (h.tracked i hi p hne).2⟩

theorem facts_follow_records_manifest :
    (appsScanner.after (manifestHistory.take 2)).hashes.find? manifestPath =
        some ⟨manifestPath, retryHash, ⟨1, 0⟩⟩ ∧
      (appsScanner.after manifestHistory).hashes.find? manifestPath =
        some ⟨manifestPath, "42fd72d08d69494b875b67a4fdf9c5127d5b1dc7e435464fc10cfe3e2d22e4ba",
          ⟨2, 0⟩⟩ ∧
      ∃ bytes, contentsIn manifestHistory manifestPath bytes ∧
        Digest.sha256 bytes =
          "42fd72d08d69494b875b67a4fdf9c5127d5b1dc7e435464fc10cfe3e2d22e4ba" ∧
        strictApps.held () (appsScanner.after manifestHistory).facts manifestPath =
          strictApps.extract () manifestPath (Text.decodeLossy bytes) := by
  have hrecord : (appsScanner.after manifestHistory).hashes.find? manifestPath =
      some ⟨manifestPath, "42fd72d08d69494b875b67a4fdf9c5127d5b1dc7e435464fc10cfe3e2d22e4ba",
        ⟨2, 0⟩⟩ := by decide +kernel
  obtain ⟨bytes, hbytes, hhash, hfacts⟩ :=
    (facts_follow_records strictApps strictApps_replaces FactStore.registry_drops appsScanner_opened
      manifestHistory).1 manifestPath _ hrecord (by decide +kernel)
  have haccepts : Extensions.accepts manifestPath = true := by decide +kernel
  refine ⟨by decide +kernel, hrecord, bytes, hbytes, hhash, ?_⟩
  exact hfacts () (List.mem_singleton_self ()) haccepts

end ProjectIndex.Registry
