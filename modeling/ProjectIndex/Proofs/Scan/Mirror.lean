import ProjectIndex.Proofs.Scan.Incremental

/-!
An index that mirrors the files of a project: every file that is to be indexed is recorded under the
digest of its content, no other path is recorded, and each indexer holds what it takes from these
contents and nothing else. What the files are decides what such an index is.
-/
namespace ProjectIndex

open FileTree

namespace Scanner

variable {σ : Type} {s : Scanner σ} {place : List Name} {files : FileTree} {p : Path}

/-- What is to be recorded of a path: the digest of the file to be indexed there, or nothing. -/
def Due (s : Scanner σ) (files : FileTree) (p : Path) (digest : Option String) : Prop :=
  ∀ hash, digest = some hash ↔ ∃ bytes, s.Eligible files p bytes ∧ hash = Digest.sha256 bytes

theorem Due.eq {d d' : Option String} (h : s.Due files p d) (h' : s.Due files p d') : d = d' :=
  Option.ext fun hash => (h hash).trans (h' hash).symm

theorem due_none (h : ∀ bytes, ¬ s.Eligible files p bytes) : s.Due files p none := fun _ =>
  iff_of_false nofun fun ⟨bytes, heligible, _⟩ => h bytes heligible

theorem due_dueDigest? (hrooted : s.passing.Rooted place) (hread : s.CanRead files)
    {bytes : List UInt8} (hholds : files.HoldsFile s.root p bytes)
    (hindexable : s.isIndexable p = true) : s.Due files p (s.dueDigest? bytes) := by
  intro hash
  rw [dueDigest?_eq_some]
  constructor
  · rintro ⟨hsmall, rfl⟩
    exact ⟨bytes, ⟨hholds, hindexable, hsmall⟩, rfl⟩
  · rintro ⟨bytes', ⟨hholds', _, hsmall⟩, rfl⟩
    have hfind := hread.find hrooted hholds hindexable
    rw [hread.find hrooted hholds' hindexable] at hfind
    cases hfind
    exact ⟨hsmall, rfl⟩

theorem SameProject.eligible {t : Scanner σ} (h : s.SameProject t) {bytes : List UInt8} :
    t.Eligible files p bytes ↔ s.Eligible files p bytes := by
  rw [Eligible, Eligible, h.root, h.options, h.isIndexable]

theorem SameProject.due {t : Scanner σ} (h : s.SameProject t) {d : Option String} :
    t.Due files p d ↔ s.Due files p d := by
  unfold Due
  simp only [h.eligible]

theorem SameProject.canRead {t : Scanner σ} (h : s.SameProject t) (hread : s.CanRead files) :
    t.CanRead files :=
  ⟨hread.isWellNamed,
    fun p bytes hp hindexable =>
      hread.canOpen p bytes (h.root ▸ hp) (h.isIndexable p ▸ hindexable),
    fun hlinks => h.root ▸ hread.linkFree (h.options ▸ hlinks)⟩

theorem SameProject.rooted {t : Scanner σ} (h : s.SameProject t)
    (hrooted : s.passing.Rooted place) : t.passing.Rooted place :=
  ⟨h.root.trans hrooted.root, hrooted.plain, rfl⟩

theorem spelled_of_looksAt (hrooted : s.passing.Rooted place) {m : Moment}
    (hfiles : m.files.root.isWellNamed = true) {c : ScanCall} (hc : c.Spelled s.root)
    (hp : p ∈ s.looksAt m c) : Spelled s.root p := by
  have hroot : s.root = pathOf place := hrooted.root
  cases c with
  | indexAll force =>
    obtain ⟨f, hf, rfl⟩ := List.mem_map.1 hp
    rw [hroot] at hf ⊢
    obtain ⟨below, hbelow, hpath⟩ := path_of_mem_walk hfiles hrooted.plain hf
    exact ⟨below, hbelow, hpath.trans (descend_pathOf hrooted.plain hbelow).symm⟩
  | indexFiles ps => exact hc p ((mem_requested hrooted hc).1 hp).1
  | removeFiles ps => exact absurd hp List.not_mem_nil
  | clearHashes => exact absurd hp List.not_mem_nil

theorem due_indexAll (hrooted : s.passing.Rooted place) (hrecords : s.RecordsSpelled s.root)
    {m : Moment} (hread : s.CanRead m.files) {s' : Scanner σ} {r : ScanReport}
    (hscan : s.indexAll m false = (s', .ok r)) (hfailed : r.failed = 0) (p : Path) :
    s.Due m.files p (s'.hashes.digest? p) := by
  obtain ⟨rfl, hsum⟩ := indexAll_eq_ok hrecords.isOpen hscan
  have hzero := (Nat.add_eq_zero_iff.1 (hsum.symm.trans hfailed)).2
  obtain ⟨hout, hin⟩ := digest?_afterFiles
    ((s.hashes_closed_trimmed _).trans hrecords.isOpen) hzero p
  by_cases hp : p ∈ s.walk m.files
  · obtain ⟨bytes, hholds, hindexable⟩ := (hread.mem_walk hrooted).1 hp
    rw [hin bytes (hread.find hrooted hholds hindexable) hp,
      (s.sameProject_trimmed ⟨m.files, .scanning true⟩).dueDigest?]
    exact due_dueDigest? hrooted hread hholds hindexable
  · -- What is recorded but not walked counts as gone and loses its record.
    have hnone : (s.trimmed ⟨m.files, .scanning true⟩).hashes.digest? p = none := by
      cases hrecord : s.hashes.find? p with
      | none =>
        have hdigest : s.hashes.digest? p = none := by rw [HashTable.digest?, hrecord]; rfl
        unfold trimmed
        split
        · exact hdigest
        · exact (HashTable.digest?_without _ _ p).trans (by rw [hdigest, ite_self])
      | some f =>
        have hgone : p ∈ s.gone m.files :=
          mem_gone_of_notMem_walk hrooted hread (hrecords.spelled p f hrecord)
            (by rw [hrecord]; rfl) hp
        have htrimmed : s.trimmed ⟨m.files, .scanning true⟩ =
            s.discard ⟨m.files, .scanning true⟩ (s.gone m.files) := trimmed_of_mem_gone hgone
        rw [htrimmed]
        exact (HashTable.digest?_without _ _ p).trans (if_pos hgone)
    rw [hout hp, hnone]
    refine due_none fun bytes heligible => hp ?_
    exact (hread.mem_walk hrooted).2 ⟨bytes, heligible.1, heligible.2.1⟩

/-- A scan of some files without failures records those that exist as they should be, and leaves the
records of the others alone. -/
theorem due_indexFiles (hrooted : s.passing.Rooted place) (hopen : s.hashes.closed = false)
    {m : Moment} (hread : s.CanRead m.files) {ps : List Path}
    (hspelled : ∀ q ∈ ps, Spelled s.root q) {s' : Scanner σ} {r : ScanReport}
    (hscan : s.indexFiles m ps = (s', .ok r)) (hfailed : r.failed = 0) (p : Path) :
    (p ∉ ps → s'.hashes.digest? p = s.hashes.digest? p) ∧
      ∀ bytes, p ∈ ps → m.files.HoldsFile s.root p bytes → s.isIndexable p = true →
        s.Due m.files p (s'.hashes.digest? p) := by
  obtain ⟨r', hprocess, hsum⟩ :=
    process_eq hopen ⟨m.files, .scanning false⟩ m.now (s.requested ps) {}
  have hrun : s' = s.afterFiles ⟨m.files, .scanning false⟩ m.now (s.requested ps) ∧ r = r' := by
    unfold indexFiles at hscan
    split at hscan
    · cases hscan
    · rw [hprocess] at hscan
      cases hscan
      exact ⟨rfl, rfl⟩
  obtain ⟨rfl, rfl⟩ := hrun
  have hzero := (Nat.add_eq_zero_iff.1 (hsum.symm.trans hfailed)).2
  obtain ⟨hout, hin⟩ := digest?_afterFiles hopen hzero p
  refine ⟨fun hp => hout fun hreq => hp ((mem_requested hrooted hspelled).1 hreq).1, ?_⟩
  intro bytes hp hholds hindexable
  rw [hin bytes (hread.find hrooted hholds hindexable)
    ((mem_requested hrooted hspelled).2 ⟨hp, hindexable⟩)]
  exact due_dueDigest? hrooted hread hholds hindexable

theorem digest?_removeFiles (hrooted : s.passing.Rooted place) (hopen : s.hashes.closed = false)
    (hclosed : s.closed = false) {m : Moment} {ps : List Path}
    (hspelled : ∀ q ∈ ps, Spelled s.root q) (p : Path) :
    (s.removeFiles m ps).1.hashes.digest? p = if p ∈ ps then none else s.hashes.digest? p := by
  have hself : ∀ q ∈ ps, s.resolve q = q := fun q hq =>
    if_pos (hrooted.isAbsolute (hspelled q hq))
  have hresolve : ps.map s.resolve = ps := by rw [List.map_congr_left hself, List.map_id']
  unfold removeFiles
  rw [hclosed, if_neg (by simp), dispatchRemoval_eq hopen, hresolve]
  exact HashTable.digest?_without _ _ p

end Scanner

namespace Registry

variable {σ : Type} {R : Registry σ} {s : Scanner σ} {files : FileTree}

/-- An index that is what the files make it. -/
structure Mirrors (R : Registry σ) (s : Scanner σ) (files : FileTree) : Prop where
  records : ∀ p, s.Due files p (s.hashes.digest? p)
  held : ∀ i ∈ R.order, ∀ p bytes, s.Eligible files p bytes → R.accepts i p →
    R.held i s.facts p = R.extract i p (Text.decodeLossy bytes)
  nothingElse : ∀ i ∈ R.order, ∀ p, (¬ ∃ bytes, s.Eligible files p bytes) ∨ ¬ R.accepts i p →
    R.held i s.facts p = []

theorem Synchronized.mirrors {found : Path → List UInt8 → Prop} (h : R.Synchronized found s)
    (hdue : ∀ p, s.Due files p (s.hashes.digest? p))
    (hfound : ∀ p bytes, s.Eligible files p bytes → found p bytes)
    (hdigests : ∀ p bytes bytes', found p bytes → found p bytes' →
      Digest.sha256 bytes = Digest.sha256 bytes' → bytes = bytes') : R.Mirrors s files := by
  refine ⟨hdue, fun i hi p bytes heligible hacc => ?_, fun i hi p hout => ?_⟩
  · have hrecord : s.hashes.digest? p = some (Digest.sha256 bytes) :=
      (hdue p _).2 ⟨bytes, heligible, rfl⟩
    obtain ⟨f, hf, hhash⟩ := Option.map_eq_some_iff.1 hrecord
    obtain ⟨bytes', hfound', hhash', hfacts⟩ :=
      h.inStep p f hf (hhash ▸ Digest.sha256_ne_retryHash bytes)
    -- The facts are those of a content with the digest, and the file has had no other such content.
    rw [hdigests p bytes bytes' (hfound p bytes heligible) hfound' (hhash.symm.trans hhash'.symm)]
    exact hfacts i hi hacc
  · by_contra hne
    obtain ⟨hacc, f, hf⟩ := h.tracked i hi p hne
    obtain ⟨bytes, heligible, _⟩ :=
      (hdue p f.contentHash).1 (by rw [HashTable.digest?, hf]; rfl)
    rcases hout with hnone | hrefuses
    · exact hnone ⟨bytes, heligible⟩
    · exact hrefuses hacc

theorem Mirrors.agree {t : Scanner σ} (hs : R.Mirrors s files) (ht : R.Mirrors t files)
    (hroot : t.root = s.root) (hoptions : t.options = s.options) (p : Path) :
    t.hashes.digest? p = s.hashes.digest? p ∧
      ∀ i ∈ R.order, R.held i t.facts p = R.held i s.facts p := by
  have heligible : ∀ bytes, t.Eligible files p bytes ↔ s.Eligible files p bytes := by
    intro bytes
    rw [Scanner.Eligible, Scanner.Eligible, Scanner.isIndexable, Scanner.isIndexable,
      Scanner.skipNames, Scanner.skipNames, hroot, hoptions]
  have hdue : s.Due files p (t.hashes.digest? p) := fun hash => by
    rw [ht.records p hash]
    simp only [heligible]
  refine ⟨hdue.eq (hs.records p), fun i hi => ?_⟩
  by_cases hin : (∃ bytes, s.Eligible files p bytes) ∧ R.accepts i p
  · obtain ⟨⟨bytes, hbytes⟩, hacc⟩ := hin
    rw [hs.held i hi p bytes hbytes hacc, ht.held i hi p bytes ((heligible bytes).2 hbytes) hacc]
  · have hout := not_and_or.1 hin
    rw [hs.nothingElse i hi p hout, ht.nothingElse i hi p (by simpa only [heligible] using hout)]

theorem Opened.passing_rooted (h : R.Opened s) :
    s.closed = false ∧ s.RecordsSpelled s.root ∧ ∃ place, s.passing.Rooted place := by
  obtain ⟨seen, root, options, facts, hopen, _⟩ := h
  obtain ⟨canonical, hcanonical, rfl⟩ := Scanner.open?_eq_ok hopen
  obtain ⟨place, hplain, hroot⟩ := canonical?_eq_ok hcanonical
  refine ⟨rfl, ⟨rfl, fun p f hp => ?_⟩, place, hroot, hplain, rfl⟩
  exact absurd ((HashTable.find?_new p).symm.trans hp) (by simp)

theorem Opened.sameProject {t : Scanner σ} (hs : R.Opened s) (ht : R.Opened t)
    (hroot : t.root = s.root) (hoptions : t.options = s.options) : s.SameProject t := by
  obtain ⟨_, _, _, _, hopen, _⟩ := hs
  obtain ⟨_, _, _, _, hopen', _⟩ := ht
  obtain ⟨_, _, rfl⟩ := Scanner.open?_eq_ok hopen
  obtain ⟨_, _, rfl⟩ := Scanner.open?_eq_ok hopen'
  exact ⟨hroot, hoptions, rfl, rfl⟩

theorem Opened.mirrors (hR : R.Replaces) (hD : R.Drops) (hs : R.Opened s) {m : Moment}
    (hread : s.CanRead m.files) {s' : Scanner σ} {r : ScanReport}
    (hscan : s.indexAll m false = (s', .ok r)) (hfailed : r.failed = 0) :
    s.SameProject s' ∧ R.Mirrors s' m.files := by
  obtain ⟨_, hrecords, place, hrooted⟩ := hs.passing_rooted
  have hrun : s.after [(m, .indexAll false)] = s' := congrArg Prod.fst hscan
  obtain ⟨hsync, hsame⟩ := (synchronized_invariant hR hD).after [(m, .indexAll false)]
    (fun c hc _ _ _ _ _ hfind => (⟨c, hc, hfind⟩ : contentsIn [(m, .indexAll false)] _ _))
    hs.synchronized
  rw [hrun] at hsync hsame
  have hfind : ∀ p bytes, contentsIn [(m, .indexAll false)] p bytes →
      m.files.find p = .ok (.file bytes) := by
    rintro p bytes ⟨c, hc, hfind⟩
    rwa [List.mem_singleton.1 hc] at hfind
  refine ⟨hsame, hsync.mirrors (fun p => ?_) (fun p bytes heligible => ?_) ?_⟩
  · exact hsame.due.2 (Scanner.due_indexAll hrooted hrecords hread hscan hfailed p)
  · have hbytes := hsame.eligible.1 heligible
    exact ⟨_, List.mem_singleton_self _, hread.find hrooted hbytes.1 hbytes.2.1⟩
  · intro p bytes bytes' hbytes hbytes' _
    have hboth := (hfind p bytes hbytes).symm.trans (hfind p bytes' hbytes')
    cases hboth
    rfl

end Registry
end ProjectIndex
