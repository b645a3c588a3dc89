import ProjectIndex.Proofs.Scan.Mirror
import ProjectIndex.Proofs.Scan.Refusal

/-!
Records under spellings that no walk gives. A scan compares paths by their components when it looks
for what is gone, and by their text when it looks up a record. So a record under another spelling of
a walked path counts as present and is not looked at: a full scan keeps it with its facts, and
records the file once more in the spelling of the walk.
-/
namespace ProjectIndex

open FileTree

variable {σ : Type}

namespace Scanner

/-- Another spelling of a walked path that is text, which the walk itself does not give. -/
structure Respells (s : Scanner σ) (files : FileTree) (p q : Path) : Prop where
  walked : q ∈ s.walk files
  isText : files.isText q = true
  same : Path.same p q = true
  unwalked : p ∉ s.walk files

def Respelled (s : Scanner σ) (files : FileTree) (p : Path) : Prop := ∃ q, s.Respells files p q

theorem SameProject.respells {s t : Scanner σ} (h : s.SameProject t) {files : FileTree}
    {p q : Path} : t.Respells files p q ↔ s.Respells files p q := by
  have hwalk := h.walk files
  constructor
  · rintro ⟨hq, htext, hsame, hp⟩
    exact ⟨hwalk ▸ hq, htext, hsame, hwalk ▸ hp⟩
  · rintro ⟨hq, htext, hsame, hp⟩
    exact ⟨hwalk ▸ hq, htext, hsame, hwalk ▸ hp⟩

theorem eq_of_mem_walk {s : Scanner σ} {place : List Name} (hrooted : s.passing.Rooted place)
    {m : Moment} (hfiles : m.files.root.isWellNamed = true) {p q : Path} (hp : p ∈ s.walk m.files)
    (hq : q ∈ s.walk m.files) (hsame : Path.same p q = true) : p = q := by
  have hspelled {p : Path} (hp : p ∈ s.walk m.files) : Spelled s.root p :=
    spelled_of_looksAt (c := .indexAll false) hrooted hfiles trivial hp
  exact hrooted.eq_of_same (hspelled hp) (hspelled hq) hsame

theorem walked_or_respelled {s s' : Scanner σ} (hopen : s.hashes.closed = false) {m : Moment}
    {r : ScanReport} (hscan : s.indexAll m false = (s', .ok r)) {p : Path}
    (hp : (s'.hashes.find? p).isSome = true) :
    p ∈ s.walk m.files ∨ s.Respelled m.files p := by
  refine or_iff_not_imp_left.2 fun hout => ?_
  obtain ⟨q, hq, htext, hsame⟩ := (walked_or_same_of_recorded hopen hscan hp).resolve_left hout
  exact ⟨q, hq, htext, hsame, hout⟩

end Scanner

namespace Registry

variable {R : Registry σ} {s s' : Scanner σ} {m : Moment} {r : ScanReport} {p q : Path}

theorem Usable.sameAt_indexAll_of_respells (hR : R.Replaces) (hF : R.Forgets) (h : R.Usable s)
    (hscan : s.indexAll m false = (s', .ok r)) (hp : s.Respells m.files p q) : R.SameAt p s s' := by
  obtain ⟨rfl, _⟩ := Scanner.indexAll_eq_ok h.isOpen hscan
  obtain ⟨hq, htext, hsame, hout⟩ := hp
  have hstays : p ∉ s.gone m.files := fun hgone =>
    absurd hsame (by simp [(Scanner.mem_gone_iff.1 hgone).2 q hq htext])
  have htrimmed := h.sameAt_trimmed hF ⟨m.files, .scanning true⟩ hstays
  exact htrimmed.trans
    (htrimmed.usable.sameAt_afterFiles hR hF ⟨m.files, .scanning true⟩ m.now hout)

theorem Opened.recorded_of_held (hR : R.Replaces) (hD : R.Drops) (hs : R.Opened s)
    {history : List (Moment × ScanCall)}
    (hscan : (s.after history).indexAll m false = (s', .ok r)) {i : R.Slot} (hi : i ∈ R.order)
    (hheld : R.held i s'.facts p ≠ []) : (s'.hashes.find? p).isSome = true := by
  have hrun : s.after (history ++ [(m, .indexAll false)]) = s' := by
    rw [Scanner.after, List.foldl_append]
    exact congrArg Prod.fst hscan
  obtain ⟨_, f, hf⟩ := (hrun ▸ hs.synchronized_after hR hD _).tracked i hi p hheld
  rw [hf]
  rfl

/-- A full scan without failures keeps a path recorded in another spelling than that of the walk,
with its facts, beside the record it makes in that spelling. Only so are two recorded paths equal by
their components, and only so do facts of one file stand under two paths. -/
theorem full_scan_keeps_respelled (R : Registry σ) (hR : R.Replaces) (hD : R.Drops)
    {s : Scanner σ} (hs : R.Opened s) (history : List (Moment × ScanCall)) {m : Moment}
    (hfiles : m.files.root.isWellNamed = true) {s' : Scanner σ} {r : ScanReport}
    (hscan : (s.after history).indexAll m false = (s', .ok r)) (hfailed : r.failed = 0) :
    (∀ p q, s.Respells m.files p q →
      s'.hashes.find? p = (s.after history).hashes.find? p ∧
      (∀ i, R.held i s'.facts p = R.held i (s.after history).facts p) ∧
      ∀ bytes, m.files.find q = .ok (.file bytes) → bytes.length ≤ s.options.maxFileSize →
        s'.hashes.digest? q = some (Digest.sha256 bytes)) ∧
    (∀ p q, Path.same p q = true → (s'.hashes.find? p).isSome = true →
      (s'.hashes.find? q).isSome = true →
      p = q ∨ s.Respelled m.files p ∨ s.Respelled m.files q) ∧
    ∀ i ∈ R.order, ∀ p q, Path.same p q = true → R.held i s'.facts p ≠ [] →
      R.held i s'.facts q ≠ [] → p = q ∨ s.Respelled m.files p ∨ s.Respelled m.files q := by
  obtain ⟨husable, hsame, _⟩ := hs.usable_after hR hD.forgets history
  obtain ⟨_, _, place, hrooted⟩ := hs.passing_rooted
  -- A walk gives a place one spelling, so of two records one is not from the walk.
  have honce (p q : Path) (hpq : Path.same p q = true) (hp : (s'.hashes.find? p).isSome = true)
      (hq : (s'.hashes.find? q).isSome = true) :
      p = q ∨ s.Respelled m.files p ∨ s.Respelled m.files q := by
    have hp := Scanner.walked_or_respelled husable.isOpen hscan hp
    have hq := Scanner.walked_or_respelled husable.isOpen hscan hq
    simp only [Scanner.Respelled, hsame.respells, hsame.walk] at hp hq ⊢
    rcases hp with hp | hp
    · rcases hq with hq | hq
      · exact .inl (Scanner.eq_of_mem_walk hrooted hfiles hp hq hpq)
      · exact .inr (.inr hq)
    · exact .inr (.inl hp)
  refine ⟨fun p q hpq => ?_, honce, fun i hi p q hpq hp hq => ?_⟩
  · have hkept := husable.sameAt_indexAll_of_respells hR hD.forgets hscan (hsame.respells.2 hpq)
    refine ⟨hkept.record, hkept.held, fun bytes hfind hsmall => ?_⟩
    exact (husable.held_of_walked hR hD.forgets hscan hfailed (hsame.walk m.files ▸ hpq.walked) hfind
      (hsame.options ▸ hsmall)).1
  · exact honce p q hpq (hs.recorded_of_held hR hD hscan hi hp)
      (hs.recorded_of_held hR hD hscan hi hq)

def dottedManifestPath : Path := .ofString "/p/./manifest.xml"

def dottedHistory : List (Moment × ScanCall) :=
  [(⟨projectWith "<manifest><meta><name>A</name></meta></manifest>", ⟨0, 0⟩⟩,
    .indexFiles [.ofString "./manifest.xml"])]

def dottedScan : Scanner (FactStore Extension) × Except Failure ScanReport :=
  (appsScanner.after dottedHistory).indexAll
    ⟨projectWith "<manifest><meta><name>A</name></meta></manifest>", ⟨1, 0⟩⟩ false

theorem full_scan_keeps_respelled_manifest :
    dottedScan.1.hashes.find? dottedManifestPath =
        (appsScanner.after dottedHistory).hashes.find? dottedManifestPath ∧
      dottedScan.1.hashes.digest? manifestPath =
        some (Digest.sha256 "<manifest><meta><name>A</name></meta></manifest>".toUTF8.toList) := by
  have hscan : dottedScan = (dottedScan.1, .ok { seen := 1, indexed := 1 }) :=
    Prod.ext rfl (by decide +kernel)
  have hrespells : appsScanner.Respells
      (projectWith "<manifest><meta><name>A</name></meta></manifest>") dottedManifestPath
      manifestPath := ⟨by decide +kernel, by decide, by decide +kernel, by decide +kernel⟩
  obtain ⟨hkept, _, hrecorded⟩ := (full_scan_keeps_respelled strictApps strictApps_replaces
    FactStore.registry_drops appsScanner_opened dottedHistory (by decide +kernel) hscan rfl).1
      _ _ hrespells
  exact ⟨hkept, hrecorded _ rfl (by decide +kernel)⟩

/-- One manifest, asked for as it stands below the root and then found by a full scan, is recorded
twice and has its app twice. -/
theorem respelled_manifest_is_recorded_twice :
    dottedScan.2 = .ok { seen := 1, indexed := 1 } ∧
      Path.same dottedManifestPath manifestPath = true ∧ dottedManifestPath ≠ manifestPath ∧
      (dottedScan.1.hashes.find? dottedManifestPath).isSome = true ∧
      (dottedScan.1.hashes.find? manifestPath).isSome = true ∧
      strictApps.held () dottedScan.1.facts dottedManifestPath ≠ [] ∧
      strictApps.held () dottedScan.1.facts manifestPath ≠ [] := by
  decide +kernel

end Registry
end ProjectIndex
