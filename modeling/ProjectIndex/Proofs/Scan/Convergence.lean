import ProjectIndex.Proofs.Files.Walk
import ProjectIndex.Proofs.Scan.Recorded
import ProjectIndex.Proofs.Scan.Synchronized

/-!
A full scan without failures ends in a state that depends on the files alone. Whatever happened
before it, the records are those of the files that are to be indexed, and each indexer holds what it
takes from them and nothing else.
-/
namespace ProjectIndex

open FileTree

def ScanCall.Spelled (root : Path) : ScanCall → Prop
  | .indexFiles ps => ∀ p ∈ ps, FileTree.Spelled root p
  | _ => True

theorem Path.mem_of_mem_dedup {p : Path} {ps : List Path} (h : p ∈ dedup ps) : p ∈ ps := by
  induction ps with
  | nil => exact h
  | cons q ps ih =>
    rw [dedup] at h
    split at h
    · exact List.mem_cons.2 ((List.mem_cons.1 h).imp_right fun h => absurd h List.not_mem_nil)
    · next first rest hdedup =>
      rw [hdedup] at ih
      split at h
      · refine List.mem_cons.2 ((List.mem_cons.1 h).imp_right fun h => ?_)
        exact ih (List.mem_cons_of_mem _ h)
      · exact List.mem_cons.2 ((List.mem_cons.1 h).imp_right ih)

namespace Scanner

variable {σ : Type}

/-- A file that a scan is to index: it stands below the root, has a grammar, lies in no skipped
directory and is not too large. -/
def Eligible (s : Scanner σ) (files : FileTree) (p : Path) (bytes : List UInt8) : Prop :=
  files.HoldsFile s.root p bytes ∧ s.isIndexable p = true ∧
    bytes.length ≤ s.options.maxFileSize

/-- Whether the files that a scan looks at can be opened by their paths. -/
def CanOpen (s : Scanner σ) (files : FileTree) : Prop :=
  ∀ p bytes, files.HoldsFile s.root p bytes → s.isIndexable p = true → ∃ e, files.find p = .ok e

/-- A scanner that passes over links, on the canonical path of a place. -/
structure Rooted (s : Scanner σ) (place : List Name) : Prop where
  root : s.root = pathOf place
  plain : ∀ n ∈ place, Plain n
  followLinks : s.options.followLinks = false

theorem Rooted.sameProject {s t : Scanner σ} {place : List Name} (h : s.Rooted place)
    (hsame : s.SameProject t) : t.Rooted place :=
  ⟨hsame.root.trans h.root, h.plain, hsame.options ▸ h.followLinks⟩

theorem Rooted.mem_walk {s : Scanner σ} {place : List Name} (h : s.Rooted place)
    {files : FileTree} (hfiles : files.root.isWellNamed = true) {p : Path} :
    p ∈ s.walk files ↔ ∃ bytes, files.HoldsFile s.root p bytes ∧ s.isIndexable p = true := by
  unfold walk isIndexable
  rw [h.root, h.followLinks, FileTree.mem_walk hfiles h.plain]
  simp only [Bool.and_eq_true, Bool.not_eq_true']

theorem Rooted.find {s : Scanner σ} {place : List Name} (h : s.Rooted place) {files : FileTree}
    (hfiles : files.root.isWellNamed = true) (hopen : s.CanOpen files) {p : Path}
    {bytes : List UInt8} (hp : files.HoldsFile s.root p bytes)
    (hindexable : s.isIndexable p = true) : files.find p = .ok (.file bytes) := by
  obtain ⟨e, he⟩ := hopen p bytes hp hindexable
  obtain ⟨start, below, hstart, hget, rfl⟩ := hp
  have hplain : ∀ n ∈ below, Plain n := fun n hn =>
    (Entry.plain_of_get? hfiles hget).1 n (List.mem_append_right _ hn)
  rw [h.root] at hstart he ⊢
  rw [he, find_descend h.plain hplain hstart hget he]

theorem Rooted.isAbsolute {s : Scanner σ} {place : List Name} (h : s.Rooted place) {p : Path}
    (hp : Spelled s.root p) : p.isAbsolute = true := by
  obtain ⟨below, hbelow, rfl⟩ := hp
  rw [h.root, descend_pathOf h.plain hbelow]
  exact isAbsolute_pathOf _

theorem Rooted.eq_of_same {s : Scanner σ} {place : List Name} (h : s.Rooted place) {p q : Path}
    (hp : Spelled s.root p) (hq : Spelled s.root q) (hsame : Path.same p q = true) : p = q := by
  obtain ⟨below, hbelow, rfl⟩ := hp
  obtain ⟨others, hothers, rfl⟩ := hq
  rw [h.root, descend_pathOf h.plain hbelow, descend_pathOf h.plain hothers] at hsame ⊢
  have hplain : ∀ names : List Name, (∀ n ∈ names, Plain n) → ∀ n ∈ place ++ names, Plain n :=
    fun names hnames n hn => (List.mem_append.1 hn).elim (h.plain n) (hnames n)
  rw [same_pathOf (hplain below hbelow) (hplain others hothers) hsame]

theorem Rooted.spelled_of_looksAt {s : Scanner σ} {place : List Name} (h : s.Rooted place)
    {m : Moment} (hfiles : m.files.root.isWellNamed = true) {c : ScanCall}
    (hc : c.Spelled s.root) {p : Path} (hp : p ∈ s.looksAt m c) : Spelled s.root p := by
  cases c with
  | indexAll force =>
    obtain ⟨bytes, hholds, _⟩ := (h.mem_walk hfiles).1 hp
    exact hholds.spelled hfiles
  | indexFiles ps =>
    have hmem := Path.mem_of_mem_dedup hp
    rw [Path.sort, List.mem_mergeSort, List.mem_filter, List.mem_map] at hmem
    obtain ⟨⟨q, hq, rfl⟩, _⟩ := hmem
    rw [resolve, if_pos (h.isAbsolute (hc q hq))]
    exact hc q hq
  | removeFiles ps => exact absurd hp List.not_mem_nil
  | clearHashes => exact absurd hp List.not_mem_nil

structure RecordsSpelled (root : Path) (s : Scanner σ) : Prop where
  isOpen : s.hashes.closed = false
  spelled : ∀ p f, s.hashes.find? p = some f → Spelled root p

theorem recordsSpelled_invariant (root : Path) :
    Invariant (fun p _ => Spelled root p) (RecordsSpelled (σ := σ) root) where
  isOpen h := h.isOpen
  settle env now s p bytes hp h := by
    refine ⟨(hashes_closed_settle env now s _).trans h.isOpen, fun q f hq => ?_⟩
    rw [find?_settle] at hq
    by_cases hqp : q = p
    · exact hqp ▸ hp
    · rw [if_neg hqp] at hq
      exact h.spelled q f hq
  discard env s ps h := by
    refine ⟨h.isOpen, fun q f hq => ?_⟩
    rw [discard, HashTable.find?_without] at hq
    split at hq
    · cases hq
    · exact h.spelled q f hq
  clear env s h := by
    unfold clearAll
    split
    · exact ⟨h.isOpen, h.spelled⟩
    · rw [HashTable.clear_eq h.isOpen]
      exact ⟨rfl, fun q f hq => absurd ((HashTable.find?_new q).symm.trans hq) (by simp)⟩

theorem digest?_trimmed {s : Scanner σ} {place : List Name} (h : s.Rooted place)
    (hrecords : s.RecordsSpelled s.root) {env : Surroundings}
    (hfiles : env.files.root.isWellNamed = true) {p : Path} (hp : p ∉ s.walk env.files) :
    (s.trimmed env).hashes.digest? p = none := by
  rw [digest?_trimmed_eq]
  cases hrecord : s.hashes.find? p with
  | none => simp [HashTable.digest?, hrecord]
  | some f =>
    have hgone : p ∈ s.gone env.files := by
      rw [gone, goneFrom, List.mem_filter, List.mem_mergeSort, HashTable.mem_paths_iff, hrecord]
      refine ⟨rfl, ?_⟩
      rw [Bool.not_eq_true', List.any_eq_false]
      -- A file that is found cannot stand for another spelling of this path.
      intro q hq hfound
      obtain ⟨_, hsame⟩ := Bool.and_eq_true_iff.1 hfound
      obtain ⟨bytes, hholds, _⟩ := (h.mem_walk hfiles).1 hq
      have hpq := h.eq_of_same (hrecords.spelled p f hrecord) (hholds.spelled hfiles) hsame
      exact hp (hpq ▸ hq)
    exact if_pos hgone

/-- What a full scan without failures records: the files to be indexed, each under the digest of its
content. -/
theorem digest?_indexAll {s : Scanner σ} {place : List Name} (hrooted : s.Rooted place)
    (hrecords : s.RecordsSpelled s.root) {m : Moment} (hfiles : m.files.root.isWellNamed = true)
    (hread : s.CanOpen m.files) (hclosed : s.closed = false) {s' : Scanner σ} {r : ScanReport}
    (hscan : s.indexAll m false = (s', .ok r)) (hfailed : r.failed = 0) (p : Path) (hash : String) :
    s'.hashes.digest? p = some hash ↔
      ∃ bytes, s.Eligible m.files p bytes ∧ hash = Digest.sha256 bytes := by
  obtain ⟨r', hsync, hle⟩ :=
    synchronize_eq hrecords.isOpen ⟨m.files, .scanning true⟩ m.now
  simp only [indexAll, hclosed, Bool.false_eq_true, if_false, hsync] at hscan
  cases hscan
  have hsame := s.sameProject_trimmed ⟨m.files, .scanning true⟩
  obtain ⟨hout, hin⟩ := digest?_afterFiles
    ((s.hashes_closed_trimmed _).trans hrecords.isOpen) (Nat.le_zero.1 (hfailed ▸ hle)) p
  by_cases hp : p ∈ s.walk m.files
  · obtain ⟨bytes, hholds, hindexable⟩ := (hrooted.mem_walk hfiles).1 hp
    have hfind := hrooted.find hfiles hread hholds hindexable
    rw [hin bytes hfind hp, hsame.dueDigest?, dueDigest?_eq_some]
    constructor
    · rintro ⟨hsmall, rfl⟩
      exact ⟨bytes, ⟨hholds, hindexable, hsmall⟩, rfl⟩
    · rintro ⟨bytes', ⟨hholds', _, hsmall⟩, rfl⟩
      have hfind' := hrooted.find hfiles hread hholds' hindexable
      rw [hfind] at hfind'
      cases hfind'
      exact ⟨hsmall, rfl⟩
  · rw [hout hp, digest?_trimmed hrooted hrecords hfiles hp]
    refine ⟨fun hnone => absurd hnone (by simp), ?_⟩
    rintro ⟨bytes, ⟨hholds, hindexable, _⟩, _⟩
    exact absurd ((hrooted.mem_walk hfiles).2 ⟨bytes, hholds, hindexable⟩) hp

end Scanner

namespace Registry

variable {σ : Type} {R : Registry σ}

theorem Opened.rooted {s : Scanner σ} (h : R.Opened s) (hlinks : s.options.followLinks = false) :
    s.closed = false ∧ s.RecordsSpelled s.root ∧ ∃ place, s.Rooted place := by
  obtain ⟨files, root, options, facts, hopen, _⟩ := h
  obtain ⟨canonical, hcanonical, rfl⟩ := Scanner.open?_eq_ok hopen
  obtain ⟨place, hplain, hroot⟩ := canonical?_eq_ok hcanonical
  refine ⟨rfl, ⟨rfl, fun p f hp => ?_⟩, place, hroot, hplain, hlinks⟩
  exact absurd ((HashTable.find?_new p).symm.trans hp) (by simp)

/-- No file has had two contents with one digest. -/
def NoCollision (calls : List (Moment × ScanCall)) : Prop :=
  ∀ p bytes bytes', contentsIn calls p bytes → contentsIn calls p bytes' →
    Digest.sha256 bytes = Digest.sha256 bytes' → bytes = bytes'

theorem get?_projectWith {manifest : String} {names : List Name} {bytes : List UInt8}
    (h : (projectWith manifest).root.get? names = some (.file bytes)) :
    names = ["p".toList, "manifest.xml".toList] ∧ bytes = manifest.toUTF8.toList := by
  have hlookup : ∀ {m n : Name} {d e : Entry}, List.lookup n [(m, d)] = some e → n = m ∧ d = e := by
    intro m n d e hn
    rw [List.lookup_cons] at hn
    split at hn
    · next heq => exact ⟨by simpa using heq, Option.some.inj hn⟩
    · cases hn
  rcases names with _ | ⟨n, _ | ⟨k, names⟩⟩
  · cases h
  · obtain ⟨_, d, hroot, hn, hd⟩ := Entry.get?_cons_eq_some h
    cases hroot
    obtain ⟨_, rfl⟩ := hlookup hn
    cases hd
  · obtain ⟨_, d, hroot, hn, hd⟩ := Entry.get?_cons_eq_some h
    cases hroot
    obtain ⟨rfl, rfl⟩ := hlookup hn
    obtain ⟨_, e, hdir, hk, he⟩ := Entry.get?_cons_eq_some hd
    cases hdir
    obtain ⟨rfl, rfl⟩ := hlookup hk
    cases names <;> cases he
    exact ⟨rfl, rfl⟩

theorem content_of_find_projectWith {manifest : String} {p : Path} {bytes : List UInt8}
    (h : (projectWith manifest).find p = .ok (.file bytes)) : bytes = manifest.toUTF8.toList := by
  unfold FileTree.find at h
  split at h
  · cases h
  · split at h
    · next hget =>
      cases h
      exact (get?_projectWith hget).2
    · cases h

theorem path_of_holdsFile_projectWith {manifest : String} {p : Path} {bytes : List UInt8}
    (h : (projectWith manifest).HoldsFile appsScanner.root p bytes) : p = manifestPath := by
  have hroot : (projectWith manifest).resolve appsScanner.root = .ok ["p".toList] := rfl
  obtain ⟨place, below, hplace, hget, rfl⟩ := h
  rw [hroot] at hplace
  cases hplace
  have hbelow := (get?_projectWith hget).1
  rw [List.singleton_append, List.cons.injEq] at hbelow
  rw [hbelow.2]
  rfl

theorem canOpen_projectWith (manifest : String) : appsScanner.CanOpen (projectWith manifest) := by
  intro p bytes hp _
  rw [path_of_holdsFile_projectWith hp]
  exact ⟨_, rfl⟩

theorem manifestHistory_spelled : ∀ c ∈ manifestHistory,
    c.1.files.root.isWellNamed = true ∧ c.2.Spelled appsScanner.root := by
  have hspelled : Spelled appsScanner.root manifestPath :=
    ⟨["manifest.xml".toList], by decide +kernel, rfl⟩
  refine List.forall_mem_cons.2 ⟨⟨by decide +kernel, trivial⟩, ?_⟩
  refine List.forall_mem_cons.2 ⟨⟨by decide +kernel, List.forall_mem_singleton.2 hspelled⟩, ?_⟩
  exact List.forall_mem_singleton.2 ⟨by decide +kernel, trivial⟩

theorem manifestHistory_noCollision : NoCollision manifestHistory := by
  have hcontents : ∀ p bytes, contentsIn manifestHistory p bytes →
      bytes = "<manifest><meta><name>A</name></meta></manifest>".toUTF8.toList ∨
        bytes = "<manifest/>".toUTF8.toList := by
    rintro p bytes ⟨c, hc, hfind⟩
    rcases List.mem_cons.1 hc with rfl | hc
    · exact .inl (content_of_find_projectWith hfind)
    · rcases List.mem_cons.1 hc with rfl | hc
      · exact .inr (content_of_find_projectWith hfind)
      · rw [List.mem_singleton.1 hc] at hfind
        exact .inl (content_of_find_projectWith hfind)
  have hdiffer : Digest.sha256 "<manifest><meta><name>A</name></meta></manifest>".toUTF8.toList ≠
      Digest.sha256 "<manifest/>".toUTF8.toList := by decide +kernel
  intro p bytes bytes' hbytes hbytes' hsame
  rcases hcontents p bytes hbytes with rfl | rfl <;>
    rcases hcontents p bytes' hbytes' with rfl | rfl
  · rfl
  · exact absurd hsame hdiffer
  · exact absurd hsame.symm hdiffer
  · rfl

/-- A full scan that fails nowhere ends, after any history, with the records of the files to be
indexed and with the facts of their contents. -/
theorem full_scan_converges (R : Registry σ) (hR : R.Replaces) (hD : R.Drops) {s : Scanner σ}
    (hs : R.Opened s) (hlinks : s.options.followLinks = false)
    (history : List (Moment × ScanCall))
    (hhistory : ∀ c ∈ history, c.1.files.root.isWellNamed = true ∧ c.2.Spelled s.root)
    {m : Moment} (hfiles : m.files.root.isWellNamed = true) (hread : s.CanOpen m.files)
    (hdigests : NoCollision (history ++ [(m, .indexAll false)])) {s' : Scanner σ} {r : ScanReport}
    (hscan : (s.after history).indexAll m false = (s', .ok r)) (hfailed : r.failed = 0) :
    (∀ p hash, s'.hashes.digest? p = some hash ↔
      ∃ bytes, s.Eligible m.files p bytes ∧ hash = Digest.sha256 bytes) ∧
    ∀ i ∈ R.order, ∀ p,
      (∀ bytes, s.Eligible m.files p bytes → R.accepts i p →
        R.held i s'.facts p = R.extract i p (Text.decodeLossy bytes)) ∧
      ((¬ ∃ bytes, s.Eligible m.files p bytes) ∨ ¬ R.accepts i p → R.held i s'.facts p = []) := by
  obtain ⟨hclosed, hstart, place, hrooted⟩ := hs.rooted hlinks
  obtain ⟨hrecords, hsame⟩ := (Scanner.recordsSpelled_invariant s.root).after history
    (fun c hc t hsame p hp _ _ => by
      have hspelled := (hrooted.sameProject hsame).spelled_of_looksAt (hhistory c hc).1
        (hsame.root ▸ (hhistory c hc).2) hp
      rwa [hsame.root] at hspelled) hstart
  have heligible : ∀ p bytes, (s.after history).Eligible m.files p bytes ↔
      s.Eligible m.files p bytes := fun p bytes => by
    rw [Scanner.Eligible, Scanner.Eligible, hsame.root, hsame.options, hsame.isIndexable]
  have hcanOpen : (s.after history).CanOpen m.files := fun p bytes hp hindexable =>
    hread p bytes (hsame.root ▸ hp) (hsame.isIndexable p ▸ hindexable)
  have hdigest := Scanner.digest?_indexAll (hrooted.sameProject hsame) (hsame.root ▸ hrecords)
    hfiles hcanOpen (hsame.closed.trans hclosed) hscan hfailed
  simp only [heligible] at hdigest
  have hafter : R.Synchronized (contentsIn (history ++ [(m, .indexAll false)])) s' := by
    have hrun : s.after (history ++ [(m, .indexAll false)]) = s' := by
      rw [Scanner.after, List.foldl_append]
      exact congrArg Prod.fst hscan
    exact hrun ▸ hs.synchronized_after hR hD (history ++ [(m, .indexAll false)])
  refine ⟨hdigest, fun i hi p => ⟨fun bytes hbytes hacc => ?_, fun hout => ?_⟩⟩
  · have hrecord : s'.hashes.digest? p = some (Digest.sha256 bytes) :=
      (hdigest p _).2 ⟨bytes, hbytes, rfl⟩
    obtain ⟨f, hf, hhash⟩ := Option.map_eq_some_iff.1 hrecord
    obtain ⟨bytes', hfound, hhash', hfacts⟩ :=
      hafter.inStep p f hf (hhash ▸ Digest.sha256_ne_retryHash bytes)
    have hnow : contentsIn (history ++ [(m, .indexAll false)]) p bytes :=
      ⟨(m, .indexAll false), by simp, hrooted.find hfiles hread hbytes.1 hbytes.2.1⟩
    -- The facts are those of a content with the digest, and the file has had no other such content.
    rw [hdigests p bytes bytes' hnow hfound (hhash.symm.trans hhash'.symm)]
    exact hfacts i hi hacc
  · by_contra hne
    obtain ⟨hacc, f, hf⟩ := hafter.tracked i hi p hne
    obtain ⟨bytes, hbytes, _⟩ := (hdigest p f.contentHash).1 (by rw [HashTable.digest?, hf]; rfl)
    rcases hout with hnone | hrefuses
    · exact hnone ⟨bytes, hbytes⟩
    · exact hrefuses hacc

/-- The last scan of the history of a manifest, after a call on which the indexer failed. -/
theorem full_scan_converges_manifest :
    let m : Moment := ⟨projectWith "<manifest><meta><name>A</name></meta></manifest>", ⟨2, 0⟩⟩
    let source := "<manifest><meta><name>A</name></meta></manifest>".toUTF8.toList
    appsScanner.Eligible m.files manifestPath source ∧
      ∃ s' r, (appsScanner.after (manifestHistory.take 2)).indexAll m false = (s', .ok r) ∧
        r.failed = 0 ∧ s'.hashes.digest? manifestPath = some (Digest.sha256 source) ∧
        strictApps.held () s'.facts manifestPath =
          strictApps.extract () manifestPath (Text.decodeLossy source) := by
  intro m source
  have heligible : appsScanner.Eligible m.files manifestPath source :=
    ⟨⟨["p".toList], ["manifest.xml".toList], rfl, rfl, rfl⟩, by decide +kernel, by decide +kernel⟩
  have haccepts : Extensions.accepts manifestPath = true := by decide +kernel
  have hscan : (appsScanner.after (manifestHistory.take 2)).indexAll m false =
      (((appsScanner.after (manifestHistory.take 2)).indexAll m false).1,
        .ok { seen := 1, indexed := 1 }) :=
    Prod.ext rfl (by decide +kernel)
  obtain ⟨hrecords, hfacts⟩ := full_scan_converges strictApps strictApps_replaces
    FactStore.registry_drops appsScanner_opened rfl (manifestHistory.take 2)
    (fun c hc => manifestHistory_spelled c (List.mem_of_mem_take hc)) (by decide +kernel)
    (canOpen_projectWith _) manifestHistory_noCollision hscan rfl
  exact ⟨heligible, _, _, hscan, rfl, (hrecords manifestPath _).2 ⟨source, heligible, rfl⟩,
    (hfacts () (List.mem_singleton_self ()) manifestPath).1 source heligible haccepts⟩

/-- A project whose only manifest stands in a directory that a link leads to as well. -/
def linkedProject : FileTree :=
  { root := .dir [("p".toList, .dir [("link".toList, .link (.ofString "real")),
      ("real".toList, .dir [("manifest.xml".toList,
        .file "<manifest><meta><name>A</name></meta></manifest>".toUTF8.toList)])])] }

def linkedPath : Path := .ofString "/p/link/manifest.xml"

/-- A project whose only manifest stands in a directory with a name that is no text. -/
def rawProject : FileTree :=
  { root := .dir [("p".toList, .dir [("\uFFFD".toList, .dir [("manifest.xml".toList,
      .file "<manifest><meta><name>A</name></meta></manifest>".toUTF8.toList)])])]
    illFormed := ["\uFFFD".toList]
    replaced := List.forall_mem_singleton.2 (List.mem_singleton_self _) }

def rawPath : Path := .ofString "/p/\uFFFD/manifest.xml"

/-- What is recorded behind a full scan is not what names a file to be indexed. A walk passes over
links, so no record stands under a path through one, although it is spelled as in a walk. And below a
directory whose name is no text the record gives back a text that names no file; the next scan takes
it for gone. -/
theorem full_scan_records_other_paths :
    let source := "<manifest><meta><name>A</name></meta></manifest>".toUTF8.toList
    strictApps.Opened appsScanner ∧ appsScanner.options.followLinks = false ∧
      source.length ≤ appsScanner.options.maxFileSize ∧
      (linkedProject.root.isWellNamed = true ∧ Spelled appsScanner.root linkedPath ∧
        linkedProject.find linkedPath = .ok (.file source) ∧
        appsScanner.isIndexable linkedPath = true ∧
        ∃ s', appsScanner.indexAll ⟨linkedProject, ⟨0, 0⟩⟩ false =
            (s', .ok { seen := 1, indexed := 1 }) ∧ s'.hashes.digest? linkedPath = none) ∧
      (rawProject.root.isWellNamed = true ∧ rawProject.HoldsFile appsScanner.root rawPath source ∧
        rawProject.isText rawPath = false ∧
        ∃ s', appsScanner.indexAll ⟨rawProject, ⟨0, 0⟩⟩ false =
            (s', .ok { seen := 1, indexed := 1 }) ∧
          s'.hashes.paths = .ok [rawPath] ∧ s'.gone rawProject = [rawPath]) := by
  intro source
  have hspelled : Spelled appsScanner.root linkedPath :=
    ⟨["link".toList, "manifest.xml".toList], by decide +kernel, rfl⟩
  have hholds : rawProject.HoldsFile appsScanner.root rawPath source :=
    ⟨["p".toList], ["\uFFFD".toList, "manifest.xml".toList], rfl, rfl, rfl⟩
  refine ⟨appsScanner_opened, rfl, by decide +kernel, ⟨by decide +kernel, hspelled, rfl,
    by decide +kernel, _, Prod.ext rfl (by decide +kernel), by decide +kernel⟩,
    by decide +kernel, hholds, by decide +kernel, _, Prod.ext rfl (by decide +kernel),
    by decide +kernel, by decide +kernel⟩

end Registry
end ProjectIndex
