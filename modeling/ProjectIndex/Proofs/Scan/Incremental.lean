import ProjectIndex.Proofs.Engine.Rebuild
import ProjectIndex.Proofs.Engine.Scribes
import ProjectIndex.Proofs.Files.Listing
import ProjectIndex.Proofs.Scan.Convergence
import ProjectIndex.Proofs.Scan.Ledger

/-!
A scan of some files against a scan of all of them. If the files asked for include every path on
which the records and the project disagree, both scans hand the same files to the indexers, in the
same order. They differ in how they learn that a file is gone: a full scan does not come by it,
while a scan of some files asks for it and takes it for gone only where nothing was found.
-/
namespace ProjectIndex

open FileTree

variable {σ : Type} {V : Shelf σ} {W : List (Scribe V)}

theorem Ledger.entries_eq_of_mem {l : Ledger V} {max : Nat} {files : FileTree} {ps qs : List Path}
    (hps : ps.Pairwise fun p q => Path.before p q = true)
    (hqs : qs.Pairwise fun p q => Path.before p q = true) (hnodup : ps.Nodup) (hnodup' : qs.Nodup)
    (hanti : ∀ p ∈ ps, ∀ q ∈ qs, Path.same p q = true → p = q)
    (hmem : ∀ p bytes, l.due? max files p = some bytes → (p ∈ ps ↔ p ∈ qs)) :
    l.entries max files ps = l.entries max files qs := by
  have hpath : ∀ {p : Path} {f : Path × List UInt8},
      (l.due? max files p).map (Prod.mk p) = some f → f.1 = p := by
    intro p f hf
    obtain ⟨_, _, rfl⟩ := Option.map_eq_some_iff.1 hf
    rfl
  have hsorted : ∀ {rs : List Path}, rs.Pairwise (fun p q => Path.before p q = true) →
      (l.entries max files rs).Pairwise fun f g => Path.before f.1 g.1 = true := by
    intro rs hrs
    refine hrs.filterMap _ fun p q hpq f hf g hg => ?_
    rwa [hpath hf, hpath hg]
  have hdistinct : ∀ {rs : List Path}, rs.Nodup → (l.entries max files rs).Nodup := fun hrs =>
    hrs.filterMap fun p q f hf hg => (hpath hf).symm.trans (hpath hg)
  have hperm : (l.entries max files ps).Perm (l.entries max files qs) := by
    refine (List.perm_ext_iff_of_nodup (hdistinct hnodup) (hdistinct hnodup')).2 fun f => ?_
    rw [mem_entries, mem_entries]
    exact and_congr_left fun hdue => hmem f.1 f.2 hdue
  refine hperm.eq_of_pairwise (fun f g hf hg hfg hgf => ?_) (hsorted hps) (hsorted hqs)
  obtain ⟨hp, hdue⟩ := mem_entries.1 hf
  obtain ⟨hq, hdue'⟩ := mem_entries.1 hg
  have hsame := hanti f.1 hp g.1 hq (Path.same_of_before hfg hgf)
  rw [hsame, hdue'] at hdue
  exact Prod.ext hsame (Option.some.inj hdue).symm

namespace Scanner

/-- A scanner with scribes, in whose stores every row belongs to a recorded file. -/
structure Kept (W : List (Scribe V)) (s : Scanner σ) : Prop where
  employs : s.Employs W
  covered : (s.ledger V).Covered W

theorem Kept.clear (hclears : ∀ w ∈ W, w.Clears) (env : Surroundings) {s : Scanner σ}
    (h : s.Kept W) : (s.clearAll env).1.Kept W := by
  obtain ⟨hopen, hstore, hnone⟩ := Scribe.clear_store_all hclears env h.employs.stores
  unfold clearAll
  rw [h.employs.indexers]
  split
  · next facts e hcall =>
    rw [hcall] at hopen hstore
    refine ⟨⟨rfl, h.employs.isOpen, hopen⟩, fun k hk r hr => ?_⟩
    have hr' : r ∈ (V.store k facts).rows := hr
    -- The records all stand, and what is left of the rows was there before.
    rcases hstore k with hsame | hblank
    · rw [hsame] at hr'
      exact h.covered k hk r hr'
    · rw [hblank] at hr'
      exact absurd hr' List.not_mem_nil
  · next facts hcall =>
    rw [hcall] at hopen hnone
    rw [HashTable.clear_eq h.employs.isOpen]
    refine ⟨⟨rfl, rfl, hopen⟩, fun k hk r hr => ?_⟩
    have hr' : r ∈ (V.store k facts).rows := hr
    rw [hnone rfl k hk] at hr'
    exact absurd hr' List.not_mem_nil

theorem kept_invariant (hclears : ∀ w ∈ W, w.Clears) :
    Invariant (fun _ _ => True) (Kept (σ := σ) W) where
  isOpen h := h.employs.isOpen
  settle env now s p bytes _ h := by
    obtain ⟨hemploys, hledger⟩ := h.employs.settle env now p bytes
    exact ⟨hemploys, hledger ▸ h.covered.enter _⟩
  discard env s ps h := by
    obtain ⟨hemploys, hledger⟩ := h.employs.discard env ps
    exact ⟨hemploys, hledger ▸ h.covered.strike ps⟩
  clear env s h := h.clear hclears env

/-- A scanner with these scribes that was opened on empty stores, with any calls behind it. Between
calls it may be opened again, on another directory and with other options, on the records and rows
it has. -/
inductive Reached (W : List (Scribe V)) : Scanner σ → Prop
  | opened {files root options facts s} (hopen : V.IsOpen facts)
    (hempty : ∀ k, (V.store k facts).rows = [])
    (h : open? files root options (W.map Scribe.indexer) .new facts = .ok s) : Reached W s
  | called {s} (m : Moment) (c : ScanCall) (h : Reached W s) : Reached W (s.call m c)
  | reopened {files root options hashes facts s t} (h : Reached W s) (hopen : V.IsOpen facts)
    (hrows : ∀ k, (V.store k facts).rows = (V.store k s.facts).rows)
    (hrecords : hashes.files = s.hashes.files)
    (ht : open? files root options (W.map Scribe.indexer) hashes facts = .ok t) : Reached W t

theorem root_of_open? {files : FileTree} {root : Path} {options : ScanOptions}
    {indexers : List (Indexer σ)} {hashes : HashTable} {facts : σ} {s : Scanner σ}
    (h : open? files root options indexers hashes facts = .ok s) :
    ∃ place, s.root = pathOf place ∧ ∀ n ∈ place, Plain n := by
  obtain ⟨canonical, hcanonical, rfl⟩ := open?_eq_ok h
  obtain ⟨place, hplain, hroot⟩ := canonical?_eq_ok hcanonical
  exact ⟨place, hroot, hplain⟩

theorem Reached.kept (hclears : ∀ w ∈ W, w.Clears) {s : Scanner σ} (h : Reached W s) :
    s.Kept W ∧ s.closed = false ∧ ∃ place, s.root = pathOf place ∧ ∀ n ∈ place, Plain n := by
  induction h with
  | opened hopen hempty h =>
    have hroot := root_of_open? h
    obtain ⟨canonical, _, rfl⟩ := open?_eq_ok h
    refine ⟨⟨⟨rfl, rfl, hopen⟩, fun k _ r hr => ?_⟩, rfl, hroot⟩
    exact absurd (hempty k ▸ hr) List.not_mem_nil
  | @called s m c _ ih =>
    obtain ⟨hkept, hclosed, hroot⟩ := ih
    obtain ⟨hkept', hsame⟩ := ((kept_invariant hclears).withProject s).call m c
      (fun _ _ _ _ => trivial) ⟨hkept, rfl, rfl, rfl, rfl⟩
    exact ⟨hkept', hsame.closed.trans hclosed, hsame.root ▸ hroot⟩
  | @reopened _ _ _ hashes _ s _ _ hopen hrows hrecords ht ih =>
    have hroot := root_of_open? ht
    obtain ⟨canonical, _, rfl⟩ := open?_eq_ok ht
    refine ⟨⟨⟨rfl, rfl, hopen⟩, fun k hk r hr => ?_⟩, rfl, hroot⟩
    change r.file ∈ (hashes.files.map TrackedFile.sansTime).map Prod.fst
    rw [hrecords]
    exact ih.1.covered k hk r (hrows k ▸ hr)

def passing (s : Scanner σ) : Scanner σ :=
  { s with options := { s.options with followLinks := false } }

structure CanRead (s : Scanner σ) (files : FileTree) : Prop where
  isWellNamed : files.root.isWellNamed = true
  canOpen : s.CanOpen files
  linkFree : s.options.followLinks = true → files.LinkFree s.root

/-- Whether a path is recorded as it should be: with the digest of its content if it names a file
that is to be indexed, and else not at all. -/
def InStepAt (s : Scanner σ) (files : FileTree) (p : Path) : Prop :=
  ∀ hash, s.hashes.digest? p = some hash ↔
    ∃ bytes, s.Eligible files p bytes ∧ hash = Digest.sha256 bytes

/-- A request for files that covers all differences: each path is spelled as in a walk and names a
file or nothing, and every path that is not recorded as it should be is among them. -/
structure Requests (s : Scanner σ) (files : FileTree) (ps : List Path) : Prop where
  spelled : ∀ p ∈ ps, Spelled s.root p
  fileOrNothing : ∀ p ∈ ps,
    (∃ bytes, files.HoldsFile s.root p bytes) ∨ files.doesExist p = false
  covers : ∀ p, ¬ s.InStepAt files p → p ∈ ps

section

variable {s : Scanner σ} {place : List Name} {files : FileTree} {ps : List Path}

theorem CanRead.walk_eq (h : s.CanRead files) : s.walk files = s.passing.walk files := by
  unfold walk
  cases hlinks : s.options.followLinks with
  | false => rfl
  | true =>
    have hsame := walk_of_linkFree h.isWellNamed (h.linkFree hlinks) s.skipNames true
    exact congrArg (List.map FoundFile.path) hsame

theorem CanRead.mem_walk (h : s.CanRead files) (hrooted : s.passing.Rooted place) {p : Path} :
    p ∈ s.walk files ↔ ∃ bytes, files.HoldsFile s.root p bytes ∧ s.isIndexable p = true := by
  rw [h.walk_eq]
  exact hrooted.mem_walk h.isWellNamed

theorem CanRead.find (h : s.CanRead files) (hrooted : s.passing.Rooted place) {p : Path}
    {bytes : List UInt8} (hp : files.HoldsFile s.root p bytes)
    (hindexable : s.isIndexable p = true) : files.find p = .ok (.file bytes) :=
  hrooted.find h.isWellNamed h.canOpen hp hindexable

theorem CanRead.nodup_walk (h : s.CanRead files) (hrooted : s.passing.Rooted place) :
    (s.walk files).Nodup := by
  have hroot : s.root = pathOf place := hrooted.root
  unfold walk
  rw [hroot]
  exact FileTree.nodup_walk h.isWellNamed hrooted.plain s.skipNames s.options.followLinks

theorem pairwise_requested (s : Scanner σ) (ps : List Path) :
    (s.requested ps).Pairwise fun p q => Path.before p q = true :=
  (Path.pairwise_sort _).sublist (Path.dedup_sublist _)

theorem nodup_requested (s : Scanner σ) (ps : List Path) : (s.requested ps).Nodup :=
  Path.nodup_dedup (Path.pairwise_sort _)

theorem mem_requested (hrooted : s.passing.Rooted place) (hspelled : ∀ p ∈ ps, Spelled s.root p)
    {p : Path} : p ∈ s.requested ps ↔ p ∈ ps ∧ s.isIndexable p = true := by
  have hresolve : ∀ q ∈ ps, s.resolve q = q := fun q hq =>
    if_pos (hrooted.isAbsolute (hspelled q hq))
  have hmem : ∀ q, q ∈ Path.sort ((ps.map s.resolve).filter s.isIndexable) ↔
      q ∈ ps ∧ s.isIndexable q = true := by
    intro q
    rw [Path.sort, List.mem_mergeSort, List.mem_filter, List.map_congr_left hresolve, List.map_id']
  refine ⟨fun hp => (hmem p).1 (Path.mem_of_mem_dedup hp), fun hp => ?_⟩
  obtain ⟨q, hq, hsame⟩ := Path.exists_same_mem_dedup ((hmem p).2 hp)
  have hspelledq := hspelled q ((hmem q).1 (Path.mem_of_mem_dedup hq)).1
  rw [hrooted.eq_of_same (hspelled p hp.1) hspelledq hsame]
  exact hq

theorem Requests.mem_requested (h : s.Requests files ps) (hrooted : s.passing.Rooted place)
    {p : Path} : p ∈ s.requested ps ↔ p ∈ ps ∧ s.isIndexable p = true :=
  Scanner.mem_requested hrooted h.spelled

theorem Requests.mem_requested_of_due (h : s.Requests files ps) (hread : s.CanRead files)
    (hrooted : s.passing.Rooted place) {p : Path} {bytes : List UInt8}
    (hdue : (s.ledger V).due? s.options.maxFileSize files p = some bytes) :
    p ∈ s.requested ps ↔ p ∈ s.walk files := by
  obtain ⟨hfind, hsmall, hdiffers⟩ := Ledger.find_of_due? hdue
  rw [digest?_ledger] at hdiffers
  rw [h.mem_requested hrooted, hread.mem_walk hrooted]
  constructor
  · rintro ⟨hp, hindexable⟩
    rcases h.fileOrNothing p hp with ⟨found, hholds⟩ | hnothing
    · exact ⟨found, hholds, hindexable⟩
    · rw [FileTree.doesExist, hfind] at hnothing
      cases hnothing
  · rintro ⟨found, hholds, hindexable⟩
    refine ⟨h.covers p fun hstep => hdiffers ?_, hindexable⟩
    have hsame := hread.find hrooted hholds hindexable
    rw [hfind] at hsame
    cases hsame
    exact (hstep _).2 ⟨bytes, ⟨hholds, hindexable, hsmall⟩, rfl⟩

theorem notMem_gone_of_text (htext : ∀ p f, s.hashes.find? p = some f → files.isText p = true)
    {p : Path} (hp : p ∈ s.walk files) : p ∉ s.gone files := by
  intro hgone
  obtain ⟨f, hf⟩ := Option.isSome_iff_exists.1 (mem_gone_iff.1 hgone).1
  exact notMem_gone hp (htext p f hf) hgone

theorem mem_gone_of_notMem_walk {p : Path} (hrooted : s.passing.Rooted place)
    (hread : s.CanRead files) (hspelled : Spelled s.root p)
    (hrecord : (s.hashes.find? p).isSome = true) (hp : p ∉ s.walk files) : p ∈ s.gone files := by
  refine mem_gone_iff.2 ⟨hrecord, fun q hq _ => ?_⟩
  by_contra hsame
  obtain ⟨_, hholds, _⟩ := (hread.mem_walk hrooted).1 hq
  have hpq := hrooted.eq_of_same hspelled (hholds.spelled hread.isWellNamed) (by simpa using hsame)
  exact hp (hpq ▸ hq)

theorem mem_gone (hrooted : s.passing.Rooted place) (hread : s.CanRead files)
    (htext : ∀ p f, s.hashes.find? p = some f → files.isText p = true) {p : Path}
    (hspelled : Spelled s.root p) (hrecord : (s.hashes.find? p).isSome = true) :
    p ∈ s.gone files ↔ p ∉ s.walk files :=
  ⟨fun hgone hp => notMem_gone_of_text htext hp hgone,
    mem_gone_of_notMem_walk hrooted hread hspelled hrecord⟩

theorem find_of_leaves {l : Ledger V} {max : Nat} {p : Path}
    (hnothing : files.doesExist p = false) :
    l.leaves max files p = true ↔ files.find p = .error .notFound := by
  unfold Ledger.leaves
  rw [FileTree.doesExist] at hnothing
  cases hfind : files.find p with
  | error cause => cases cause <;> simp
  | ok e =>
    rw [hfind] at hnothing
    cases hnothing

theorem Requests.mem_exits (h : s.Requests files ps) (hread : s.CanRead files)
    (hrooted : s.passing.Rooted place)
    (htext : ∀ p f, s.hashes.find? p = some f → files.isText p = true) {p : Path} (hspelled : Spelled s.root p)
    (hindexable : s.isIndexable p = true) (hrecord : (s.hashes.find? p).isSome = true) :
    (p ∈ (s.ledger V).exits s.options.maxFileSize files (s.requested ps) ↔
        p ∈ s.gone files ++ (s.ledger V).exits s.options.maxFileSize files (s.walk files)) ↔
      (files.doesExist p = false → files.find p = .error .notFound) := by
  obtain ⟨f, hf⟩ := Option.isSome_iff_exists.1 hrecord
  have hdigest : s.hashes.digest? p = some f.contentHash := by rw [HashTable.digest?, hf]; rfl
  rw [List.mem_append, mem_gone hrooted hread htext hspelled hrecord, Ledger.exits, Ledger.exits,
    List.mem_filter, List.mem_filter, h.mem_requested hrooted]
  by_cases hp : p ∈ s.walk files
  · obtain ⟨bytes, hholds, _⟩ := (hread.mem_walk hrooted).1 hp
    have hfind := hread.find hrooted hholds hindexable
    refine iff_of_true ⟨fun hexit => .inr ⟨hp, hexit.2⟩, fun hexit => ?_⟩ fun hnothing => ?_
    · have hleaves := (hexit.resolve_left fun hout => hout hp).2
      refine ⟨⟨h.covers p fun hstep => ?_, hindexable⟩, hleaves⟩
      -- A recorded file that leaves although it is there has grown too large.
      obtain ⟨found, ⟨hholds', _, hsmall⟩, _⟩ := (hstep _).1 hdigest
      have hfind' := hread.find hrooted hholds' hindexable
      simp [Ledger.leaves, hfind', Nat.not_lt.2 hsmall] at hleaves
    · rw [FileTree.doesExist, hfind] at hnothing
      cases hnothing
  · have hnofile : ¬ ∃ bytes, files.HoldsFile s.root p bytes := by
      rintro ⟨bytes, hholds⟩
      exact hp ((hread.mem_walk hrooted).2 ⟨bytes, hholds, hindexable⟩)
    have hmem : p ∈ ps := by
      refine h.covers p fun hstep => hnofile ?_
      obtain ⟨bytes, heligible, _⟩ := (hstep _).1 hdigest
      exact ⟨bytes, heligible.1⟩
    have hnothing := (h.fileOrNothing p hmem).resolve_left hnofile
    simp only [hp, hmem, hindexable, hnothing, find_of_leaves hnothing, not_false_eq_true, true_or,
      iff_true, and_self, true_and, true_imp_iff]

/-- Once the files that are due are entered, both scans strike the same recorded files exactly if
none of the missing ones is hidden by another failure to find it. -/
theorem Requests.strike_eq_iff (h : s.Requests files ps) (hkept : s.Kept W)
    (hread : s.CanRead files) (hrooted : s.passing.Rooted place)
    (htracked : ∀ p f, s.hashes.find? p = some f → s.isIndexable p = true ∧ Spelled s.root p)
    (htext : ∀ p f, s.hashes.find? p = some f → files.isText p = true) :
    let l := s.ledger V
    let max := s.options.maxFileSize
    let entered := (l.entries max files (s.walk files)).foldl (Ledger.enter W files) l
    entered.strike W (l.exits max files (s.requested ps)) =
        entered.strike W (s.gone files ++ l.exits max files (s.walk files)) ↔
      ∀ p f, s.hashes.find? p = some f → files.doesExist p = false →
        files.find p = .error .notFound := by
  intro l max entered
  have hrecords : ∀ p, p ∈ l.records.map Prod.fst ↔ ∃ f, s.hashes.find? p = some f := by
    intro p
    rw [← Ledger.isSome_digest?, digest?_ledger, HashTable.digest?, Option.isSome_map,
      Option.isSome_iff_exists]
  -- Only recorded files count, and what was just entered is struck by neither scan.
  rw [(hkept.covered.foldl_enter _).strike_eq_iff]
  constructor
  · intro hsame p f hf
    obtain ⟨hindexable, hspelled⟩ := htracked p f hf
    have hmem : p ∈ entered.records.map Prod.fst :=
      Ledger.mem_records_foldl_enter.2 (.inr ((hrecords p).2 ⟨f, hf⟩))
    exact (h.mem_exits hread hrooted htext hspelled hindexable (by rw [hf]; rfl)).1 (hsame p hmem)
  · intro hmissing p hp
    rcases Ledger.mem_records_foldl_enter.1 hp with hentered | hrecorded
    · obtain ⟨file, hfile, rfl⟩ := List.mem_map.1 hentered
      obtain ⟨hwalked, hdue⟩ := Ledger.mem_entries.1 hfile
      have hstays := Ledger.leaves_of_due? hdue
      simp [Ledger.exits, hstays, notMem_gone_of_text htext hwalked]
    · obtain ⟨f, hf⟩ := (hrecords p).1 hrecorded
      obtain ⟨hindexable, hspelled⟩ := htracked p f hf
      exact (h.mem_exits hread hrooted htext hspelled hindexable (by rw [hf]; rfl)).2 (hmissing p f hf)

theorem Kept.indexFiles (hkept : s.Kept W) (hclosed : s.closed = false) (m : Moment)
    (ps : List Path) :
    ∃ t r, s.indexFiles m ps = (t, .ok r) ∧ t.Employs W ∧ t.ledger V =
      (s.ledger V).scan s.options.maxFileSize m.files W (s.requested ps) := by
  obtain ⟨r, hprocess, _⟩ :=
    process_eq hkept.employs.isOpen ⟨m.files, .scanning false⟩ m.now (s.requested ps) {}
  obtain ⟨hemploys, hledger⟩ :=
    hkept.employs.afterFiles ⟨m.files, .scanning false⟩ m.now (s.nodup_requested ps)
  refine ⟨_, r, ?_, hemploys, hledger⟩
  unfold Scanner.indexFiles
  rw [hclosed]
  exact hprocess

theorem Kept.indexAll (hkept : s.Kept W) (hclosed : s.closed = false) {m : Moment}
    (hread : s.CanRead m.files) (hrooted : s.passing.Rooted place)
    (htext : ∀ p f, s.hashes.find? p = some f → m.files.isText p = true) :
    let l := s.ledger V
    let max := s.options.maxFileSize
    ∃ u r, s.indexAll m false = (u, .ok r) ∧ u.Employs W ∧ u.ledger V =
      ((l.entries max m.files (s.walk m.files)).foldl (Ledger.enter W m.files) l).strike W
        (s.gone m.files ++ l.exits max m.files (s.walk m.files)) := by
  intro l max
  obtain ⟨r, hsync, _⟩ := synchronize_eq hkept.employs.isOpen ⟨m.files, .scanning true⟩ m.now
  obtain ⟨htrimmed, hstruck⟩ := hkept.employs.trimmed ⟨m.files, .scanning true⟩
  obtain ⟨hemploys, hledger⟩ :=
    htrimmed.afterFiles ⟨m.files, .scanning true⟩ m.now (hread.nodup_walk hrooted)
  refine ⟨_, r, ?_, hemploys, ?_⟩
  · unfold Scanner.indexAll
    rw [hclosed]
    exact hsync
  · rw [hledger, hstruck, (sameProject_trimmed _ s).options]
    exact Ledger.strike_scan fun p hp => notMem_gone_of_text htext hp

theorem ledger_eq_iff {t u : Scanner σ} (ht : t.Employs W) (hu : u.Employs W) :
    t.ledger V = u.ledger V ↔
      (∀ k, V.store k t.facts = V.store k u.facts) ∧ t.hashes.Agree u.hashes := by
  constructor
  · intro heq
    refine ⟨fun k => congrArg (Ledger.store · k) heq, ht.isOpen.trans hu.isOpen.symm, ?_⟩
    exact congrArg Ledger.records heq
  · rintro ⟨hstores, hagree⟩
    ext1
    · exact hagree.files
    · funext k
      exact hstores k

end

/-- A scan of files that cover all differences ends as a full scan does, row by row and record by
record, exactly if every recorded file that is missing is found to be missing. -/
theorem partial_scan_matches_full (W : List (Scribe V)) (hclears : ∀ w ∈ W, w.Clears)
    {s : Scanner σ} (hs : Reached W s)
    (htracked : ∀ p f, s.hashes.find? p = some f → s.isIndexable p = true ∧ Spelled s.root p)
    {m m' : Moment} (hfiles : m'.files = m.files) (hread : s.CanRead m.files)
    (htext : ∀ p f, s.hashes.find? p = some f → m.files.isText p = true) {ps : List Path}
    (hps : s.Requests m.files ps) :
    ∃ t u r r', s.indexFiles m ps = (t, .ok r) ∧ s.indexAll m' false = (u, .ok r') ∧
      ((∀ k, V.store k t.facts = V.store k u.facts) ∧ t.hashes.Agree u.hashes ↔
        ∀ p f, s.hashes.find? p = some f → m.files.doesExist p = false →
          m.files.find p = .error .notFound) := by
  obtain ⟨hkept, hclosed, place, hroot, hplain⟩ := hs.kept hclears
  have hrooted : s.passing.Rooted place := ⟨hroot, hplain, rfl⟩
  obtain ⟨t, r, ht, htemploys, htledger⟩ := hkept.indexFiles hclosed m ps
  obtain ⟨u, r', hu, huemploys, huledger⟩ :=
    hkept.indexAll hclosed (m := m') (hfiles ▸ hread) hrooted (hfiles ▸ htext)
  have hentries : (s.ledger V).entries s.options.maxFileSize m.files (s.requested ps) =
      (s.ledger V).entries s.options.maxFileSize m.files (s.walk m.files) := by
    refine Ledger.entries_eq_of_mem (s.pairwise_requested ps) (FileTree.pairwise_walk ..)
      (s.nodup_requested ps) (hread.nodup_walk hrooted) (fun p hp q hq hsame => ?_)
      fun p bytes hdue => hps.mem_requested_of_due hread hrooted hdue
    obtain ⟨bytes, hholds, _⟩ := (hread.mem_walk hrooted).1 hq
    exact hrooted.eq_of_same (hps.spelled p ((hps.mem_requested hrooted).1 hp).1)
      (hholds.spelled hread.isWellNamed) hsame
  refine ⟨t, u, r, r', ht, hu, ?_⟩
  rw [← ledger_eq_iff htemploys huemploys, htledger, huledger, hfiles, Ledger.scan, hentries]
  exact hps.strike_eq_iff hkept hread hrooted htracked htext

section

open Registry (projectWith manifestPath)

def manifestOf (app : String) : String :=
  "<manifest><meta><name>" ++ app ++ "</name></meta></manifest>"

/-- A project whose only manifest stands in a directory. -/
def nestedProject (directory : String) : FileTree :=
  { root := .dir [("p".toList, .dir [(directory.toList,
    .dir [("manifest.xml".toList, .file (manifestOf "A").toUTF8.toList)])])] }

def nestedPath (directory : String) : Path := .ofString ("/p/" ++ directory ++ "/manifest.xml")

def nestedScanner (directory : String) : Scanner Facts :=
  configScanner.call ⟨nestedProject directory, ⟨0, 0⟩⟩ (.indexAll false)

theorem configScanner_reached : Reached Facts.scribes configScanner := by
  have hopen : open? (projectWith "") (.ofString "/p") {} (Facts.scribes.map Scribe.indexer) .new
      Facts.empty = .ok configScanner := by
    rw [Facts.map_indexer_scribes]
    rfl
  exact .opened (Facts.isOpen_withRows Facts.empty) Facts.rows_empty hopen

theorem nestedScanner_reached (directory : String) :
    Reached Facts.scribes (nestedScanner directory) := .called _ _ configScanner_reached

theorem nestedScanner_sameProject (directory : String) :
    configScanner.SameProject (nestedScanner directory) :=
  (OnStores.after ⟨rfl, rfl, rfl⟩ [(⟨nestedProject directory, ⟨0, 0⟩⟩, .indexAll false)]).2

theorem eq_nestedPath {directory : String}
    (hpaths : (nestedScanner directory).hashes.files.map TrackedFile.path = [nestedPath directory])
    {p : Path} {f : TrackedFile} (hf : (nestedScanner directory).hashes.find? p = some f) :
    p = nestedPath directory := by
  have hmem : p ∈ (nestedScanner directory).hashes.files.map TrackedFile.path := by
    rw [HashTable.mem_paths_iff, hf]
    rfl
  rwa [hpaths, List.mem_singleton] at hmem

theorem nestedScanner_canRead (directory app : String) :
    (nestedScanner directory).CanRead (projectWith (manifestOf app)) where
  isWellNamed := by
    change Entry.isWellNamed (.dir _) = true
    rfl
  canOpen p bytes hp _ := by
    rw [(nestedScanner_sameProject directory).root] at hp
    rw [Registry.path_of_holdsFile_projectWith hp]
    exact ⟨_, rfl⟩
  linkFree hlinks := by
    rw [(nestedScanner_sameProject directory).options] at hlinks
    cases hlinks

/-- Once the directory is gone and a manifest stands in its parent, the two paths are all that the
records and the project disagree on. -/
theorem nestedScanner_requests {directory app : String}
    (hpaths : (nestedScanner directory).hashes.files.map TrackedFile.path = [nestedPath directory])
    (hspelled : Spelled (.ofString "/p") (nestedPath directory))
    (hnothing : (projectWith (manifestOf app)).doesExist (nestedPath directory) = false) :
    (nestedScanner directory).Requests (projectWith (manifestOf app))
      [manifestPath, nestedPath directory] := by
  have hroot := (nestedScanner_sameProject directory).root
  have hmanifest : (projectWith (manifestOf app)).HoldsFile (.ofString "/p") manifestPath
      (manifestOf app).toUTF8.toList := ⟨["p".toList], ["manifest.xml".toList], rfl, rfl, rfl⟩
  refine ⟨?_, ?_, fun p hdiffers => ?_⟩
  · rw [hroot]
    refine List.forall_mem_cons.2 ⟨?_, List.forall_mem_singleton.2 hspelled⟩
    exact hmanifest.spelled (nestedScanner_canRead directory app).isWellNamed
  · rw [hroot]
    exact List.forall_mem_cons.2 ⟨.inl ⟨_, hmanifest⟩, List.forall_mem_singleton.2 (.inr hnothing)⟩
  · by_contra hother
    rw [List.mem_cons, List.mem_singleton, not_or] at hother
    refine hdiffers fun hash => ⟨fun hrecord => ?_, ?_⟩
    · obtain ⟨f, hf, _⟩ := Option.map_eq_some_iff.1 hrecord
      exact absurd (eq_nestedPath hpaths hf) hother.2
    · rintro ⟨bytes, ⟨hholds, _⟩, _⟩
      rw [hroot] at hholds
      exact absurd (Registry.path_of_holdsFile_projectWith hholds) hother.1

theorem nestedScanner_tracked {directory : String}
    (hpaths : (nestedScanner directory).hashes.files.map TrackedFile.path = [nestedPath directory])
    (hindexable : configScanner.isIndexable (nestedPath directory) = true)
    (hspelled : Spelled (.ofString "/p") (nestedPath directory)) (p : Path) (f : TrackedFile)
    (hf : (nestedScanner directory).hashes.find? p = some f) :
    (nestedScanner directory).isIndexable p = true ∧ Spelled (nestedScanner directory).root p := by
  have hsame := nestedScanner_sameProject directory
  have hp := eq_nestedPath hpaths hf
  rw [hp, hsame.isIndexable, hsame.root]
  exact ⟨hindexable, hspelled⟩

/-- A directory with a manifest is deleted and a manifest put in its parent. -/
theorem partial_scan_matches_full_moved :
    let s := nestedScanner "gone"
    let m : Moment := ⟨projectWith (manifestOf "B"), ⟨1, 0⟩⟩
    let m' : Moment := ⟨projectWith (manifestOf "B"), ⟨2, 0⟩⟩
    let ps := [manifestPath, nestedPath "gone"]
    s.facts.extensions.allKeys = .ok ["A"] ∧ s.Requests m.files ps ∧
      ∃ t u r r', s.indexFiles m ps = (t, .ok r) ∧ s.indexAll m' false = (u, .ok r') ∧
        (∀ k, Facts.parts.whole.store k t.facts = Facts.parts.whole.store k u.facts) ∧
        t.hashes.Agree u.hashes := by
  intro s m m' ps
  have hfiles : m'.files = m.files := rfl
  have hpaths : s.hashes.files.map TrackedFile.path = [nestedPath "gone"] := by decide +kernel
  have hspelled : Spelled (.ofString "/p") (nestedPath "gone") :=
    ⟨["gone".toList, "manifest.xml".toList], by decide +kernel, rfl⟩
  have hfind : m.files.find (nestedPath "gone") = .error .notFound := by rfl
  have hrequests : s.Requests m.files ps :=
    nestedScanner_requests hpaths hspelled (by rw [FileTree.doesExist, hfind]; rfl)
  obtain ⟨t, u, r, r', ht, hu, hiff⟩ := partial_scan_matches_full Facts.scribes
    Facts.scribes_clear (nestedScanner_reached "gone")
    (nestedScanner_tracked hpaths (by decide +kernel) hspelled) hfiles
    (nestedScanner_canRead "gone" "B") (fun p _ _ => FileTree.isText_of_nil rfl p) hrequests
  obtain ⟨hstores, hagree⟩ := hiff.2 fun p f hf _ => by
    rw [eq_nestedPath hpaths hf]
    exact hfind
  exact ⟨by decide +kernel, hrequests, t, u, r, r', ht, hu, hstores, hagree⟩

/-- A directory with a manifest becomes a manifest itself. A full scan drops what was known of the
file in it; a scan of both paths keeps it. -/
theorem partial_scan_keeps_file_below_file :
    let s := nestedScanner "manifest.xml"
    let m : Moment := ⟨projectWith (manifestOf "B"), ⟨1, 0⟩⟩
    let ps := [manifestPath, nestedPath "manifest.xml"]
    Reached Facts.scribes s ∧
      (∀ p f, s.hashes.find? p = some f → s.isIndexable p = true ∧ Spelled s.root p) ∧
      s.CanRead m.files ∧ s.Requests m.files ps ∧
      (s.indexFiles m ps).1.facts.extensions.allKeys = .ok ["A", "B"] ∧
      (s.indexAll m false).1.facts.extensions.allKeys = .ok ["B"] := by
  intro s m ps
  have hpaths : s.hashes.files.map TrackedFile.path = [nestedPath "manifest.xml"] := by
    decide +kernel
  have hspelled : Spelled (.ofString "/p") (nestedPath "manifest.xml") :=
    ⟨["manifest.xml".toList, "manifest.xml".toList], by decide +kernel, rfl⟩
  have hnothing : m.files.doesExist (nestedPath "manifest.xml") = false := by decide +kernel
  have hsorted : s.requested ps = Path.dedup ps := by
    have hfilter : (ps.map s.resolve).filter s.isIndexable = ps := by decide +kernel
    have hpairwise : ps.Pairwise fun p q => Path.before p q = true := by decide +kernel
    rw [requested, hfilter, Path.sort, List.mergeSort_of_pairwise hpairwise]
  have hpartial : (s.indexFiles m ps).1.facts.extensions.allKeys = .ok ["A", "B"] := by
    rw [indexFiles, hsorted]
    decide +kernel
  exact ⟨nestedScanner_reached _, nestedScanner_tracked hpaths (by decide +kernel) hspelled,
    nestedScanner_canRead _ _, nestedScanner_requests hpaths hspelled hnothing, hpartial,
    by decide +kernel⟩

end

end Scanner
end ProjectIndex
