import ProjectIndex.Proofs.Engine.Keepers
import ProjectIndex.Proofs.Scan.Chunking
import ProjectIndex.Proofs.Scan.Mirror
import ProjectIndex.Proofs.Scan.Upkeep

/-!
Scanners at rest. Behind a full scan without failures every file of the project is recorded as it is,
or has no record where it is not to have one. As long as the files stay the same, a scan then hands
out nothing; all it may ask of the indexers is to drop files that have no record, and of these no
store has a row. So nothing changes, neither through scans nor when all is closed and opened again.
-/
namespace ProjectIndex

open FileTree

variable {σ : Type}

namespace Scanner

section Idle

variable {s t u : Scanner σ} {files : FileTree} {env : Surroundings} {now : Timestamp} {p : Path}
  {ps : List Path}

/-- Whether a scan has nothing to do for a path: it is not handed out, and if it is to be dropped
then it has no record. -/
def IdleAt (s : Scanner σ) (files : FileTree) (p : Path) : Prop :=
  (s.prepare files p).digest? = none ∧
    (s.leaving? (p, s.prepare files p) = some p → s.hashes.find? p = none)

structure SameRecords (s t : Scanner σ) : Prop extends s.SameProject t where
  hashes : t.hashes = s.hashes

theorem SameRecords.refl (s : Scanner σ) : s.SameRecords s := ⟨⟨rfl, rfl, rfl, rfl⟩, rfl⟩

theorem SameRecords.trans (h : s.SameRecords t) (k : t.SameRecords u) : s.SameRecords u :=
  ⟨h.toSameProject.trans k.toSameProject, k.hashes.trans h.hashes⟩

theorem SameRecords.idleAt (h : s.SameRecords t) (hidle : s.IdleAt files p) : t.IdleAt files p := by
  unfold IdleAt leaving? prepare at *
  rw [h.hashes, h.options]
  exact hidle

theorem settled_of_idle (h : ∀ p ∈ ps, s.IdleAt env.files p) : s.settled env now ps = s := by
  suffices hfold : ∀ v : Scanner σ, (s.prepared env.files ps).foldl (settle env now) v = v from
    hfold s
  induction ps with
  | nil => exact fun _ => rfl
  | cons p ps ih =>
    intro v
    obtain ⟨hp, hps⟩ := List.forall_mem_cons.1 h
    rw [prepared, List.map_cons, List.foldl_cons, settle_of_digest?_eq_none env now v hp.1]
    exact ih hps v

theorem afterChunk_of_idle (now : Timestamp) (h : ∀ p ∈ ps, s.IdleAt env.files p) :
    s.afterChunk env now ps = s ∨ ∃ qs, (∀ q ∈ qs, s.hashes.find? q = none) ∧
      s.afterChunk env now ps = s.discard env qs := by
  unfold afterChunk
  rw [settled_of_idle h]
  split
  · exact .inl rfl
  · refine .inr ⟨_, fun q hq => ?_, rfl⟩
    obtain ⟨hmem, hleaves⟩ := mem_leaving.1 hq
    exact (h q hmem).2 hleaves

theorem sameRecords_discard (env : Surroundings) (h : ∀ p ∈ ps, s.hashes.find? p = none) :
    s.SameRecords (s.discard env ps) :=
  ⟨⟨rfl, rfl, rfl, rfl⟩, HashTable.without_of_unrecorded h⟩

theorem afterFiles_of_idle {P : Scanner σ → Prop}
    (hdiscard : ∀ v qs, s.SameRecords v → (∀ q ∈ qs, s.hashes.find? q = none) → P v →
      P (v.discard env qs))
    (hidle : ∀ p ∈ ps, s.IdleAt env.files p) (h : P s) :
    P (s.afterFiles env now ps) ∧ s.SameRecords (s.afterFiles env now ps) := by
  unfold afterFiles
  rw [← flatten_chunksOf (s.options.chunkSize - 1) ps] at hidle
  generalize chunksOf (s.options.chunkSize - 1) ps = cs at hidle ⊢
  suffices hrun : ∀ v, s.SameRecords v → P v →
      P (cs.foldl (afterChunk env now) v) ∧ s.SameRecords (cs.foldl (afterChunk env now) v) from
    hrun s (.refl s) h
  -- Paths stay idle from chunk to chunk, since the records do not change on the way.
  induction cs with
  | nil => exact fun v hsame hv => ⟨hv, hsame⟩
  | cons c cs ih =>
    intro v hsame hv
    rw [List.flatten_cons] at hidle
    have hc : ∀ p ∈ c, v.IdleAt env.files p := fun p hp =>
      hsame.idleAt (hidle p (List.mem_append_left _ hp))
    have hcs := ih fun p hp => hidle p (List.mem_append_right _ hp)
    rw [List.foldl_cons]
    rcases afterChunk_of_idle now hc with hstays | ⟨qs, hqs, hdrops⟩
    · rw [hstays]
      exact hcs v hsame hv
    · rw [hdrops]
      have hqs' : ∀ q ∈ qs, s.hashes.find? q = none := fun q hq => hsame.hashes ▸ hqs q hq
      exact hcs _ (hsame.trans (sameRecords_discard env hqs)) (hdiscard v qs hsame hqs' hv)

end Idle

section AtRest

variable {s t : Scanner σ} {place : List Name} {files : FileTree}

structure AtRest (s : Scanner σ) (files : FileTree) : Prop where
  noneGone : s.gone files = []
  walked : ∀ p ∈ s.walk files, s.IdleAt files p
  missing : ∀ p, Spelled s.root p → files.find p = .error .notFound → s.hashes.find? p = none

theorem AtRest.congr (h : s.AtRest files) (hsame : s.SameRecords t) : t.AtRest files := by
  have hwalk := hsame.walk files
  refine ⟨?_, fun p hp => hsame.idleAt (h.walked p (hwalk ▸ hp)), fun p hp hfind => ?_⟩
  · rw [gone, hsame.hashes, hwalk]
    exact h.noneGone
  · rw [hsame.hashes]
    exact h.missing p (hsame.root ▸ hp) hfind

theorem idleAt_of_find (hopen : s.hashes.closed = false) {p : Path}
    (hfile : ∀ bytes, files.find p = .ok (.file bytes) →
      s.hashes.digest? p = s.dueDigest? bytes)
    (hmissing : files.find p = .error .notFound → s.hashes.find? p = none) :
    s.IdleAt files p := by
  unfold IdleAt prepare
  cases hfind : files.find p with
  | error cause =>
    cases cause with
    | notFound => exact ⟨rfl, fun _ => hmissing hfind⟩
    | _ => exact ⟨rfl, fun hleaves => by cases hleaves⟩
  | ok e =>
    cases e with
    | link target => exact ⟨rfl, fun hleaves => by cases hleaves⟩
    | dir entries => exact ⟨rfl, fun hleaves => by cases hleaves⟩
    | file bytes =>
      have hdue := hfile bytes hfind
      dsimp only
      rw [HashTable.hashOf_eq hopen]
      rw [dueDigest?] at hdue
      split at hdue
      · next hlarge =>
        rw [if_pos hlarge]
        exact ⟨rfl, fun _ => HashTable.digest?_eq_none.1 hdue⟩
      · next hsmall =>
        rw [if_neg hsmall, hdue, if_pos (by simp [Except.toOption])]
        exact ⟨rfl, fun hleaves => by cases hleaves⟩

theorem atRest_of_indexAll (hrooted : s.passing.Rooted place) (hopen : s.hashes.closed = false)
    (hfiles : files.root.isWellNamed = true) (htext : ∀ p ∈ s.walk files, files.isText p = true)
    {now : Timestamp} {r : ScanReport} (hscan : s.indexAll ⟨files, now⟩ false = (t, .ok r))
    (hfailed : r.failed = 0) :
    s.SameProject t ∧ t.hashes.closed = false ∧ t.AtRest files := by
  let env : Surroundings := ⟨files, .scanning true⟩
  obtain ⟨ht, hsum⟩ := indexAll_eq_ok hopen hscan
  have hzero : (s.trimmed env).filesFailures env now (s.walk files) = 0 :=
    (Nat.add_eq_zero_iff.1 (hsum.symm.trans hfailed)).2
  have hopen' : (s.trimmed env).hashes.closed = false := (s.hashes_closed_trimmed env).trans hopen
  have hdigest := digest?_afterFiles hopen' hzero
  have hdropped : ∀ p ∈ s.walk files, files.find p = .error .notFound →
      ((s.trimmed env).afterFiles env now (s.walk files)).hashes.find? p = none :=
    fun p hp hfind => find?_afterFiles_of_missing _ now hp hfind
  obtain ⟨hrest, hclosed⟩ := sameProject_afterFiles env now (s.trimmed env) (s.walk files)
  rw [← ht] at hdigest hdropped hrest hclosed
  have hsame : s.SameProject t := (s.sameProject_trimmed env).trans hrest
  have hwalk := hsame.walk files
  have hwalked {p : Path} (hp : p ∈ s.walk files) : Spelled s.root p :=
    spelled_of_looksAt (m := ⟨files, now⟩) (c := .indexAll false) hrooted hfiles trivial hp
  have hmissing : ∀ p, Spelled s.root p → files.find p = .error .notFound →
      t.hashes.find? p = none := by
    intro p hspelled hfind
    by_contra hrecord
    -- Only a walked path could have a record, and this one was walked and not found.
    obtain ⟨q, hq, hsameq⟩ :=
      exists_same_of_recorded hopen hscan (Option.isSome_iff_ne_none.2 hrecord)
    obtain rfl : p = q := hrooted.eq_of_same hspelled (hwalked hq) hsameq
    exact hrecord (hdropped p hq hfind)
  refine ⟨hsame, hclosed.trans hopen', ?_, fun p hp => ?_, fun p hp => hmissing p (hsame.root ▸ hp)⟩
  · refine List.eq_nil_iff_forall_not_mem.2 fun p hp => ?_
    obtain ⟨hrecord, hnone⟩ := mem_gone_iff.1 hp
    obtain ⟨q, hq, hsameq⟩ := exists_same_of_recorded hopen hscan hrecord
    rw [hnone q (hwalk.symm ▸ hq) (htext q hq)] at hsameq
    cases hsameq
  · rw [hwalk] at hp
    refine idleAt_of_find (hclosed.trans hopen') (fun bytes hfind => ?_) (hmissing p (hwalked hp))
    rw [(hdigest p).2 bytes hfind hp, hrest.dueDigest?]

/-- Whether a request is for a scan that does not start over, or for paths that are spelled as in a
walk and each name a regular file or nothing. A file behind a link is one if the walk comes by it. -/
def Harmless (s : Scanner σ) (files : FileTree) : ScanRequest → Prop
  | .all force => force = false
  | .files ps => ∀ p ∈ ps, Spelled s.root p ∧ (p ∈ s.walk files ∨
      (∃ bytes, files.HoldsFile s.root p bytes) ∨ files.doesExist p = false)

theorem mem_walk_of_holdsFile (hrooted : s.passing.Rooted place)
    (hfiles : files.root.isWellNamed = true) {p : Path} {bytes : List UInt8}
    (hholds : files.HoldsFile s.root p bytes) (hindexable : s.isIndexable p = true) :
    p ∈ s.walk files := by
  have hwalked : p ∈ s.passing.walk files := (hrooted.mem_walk hfiles).2 ⟨bytes, hholds, hindexable⟩
  obtain ⟨f, hf, rfl⟩ := List.mem_map.1 hwalked
  exact List.mem_map_of_mem (walk_subset hfiles s.root s.skipNames s.options.followLinks hf)

theorem AtRest.idle_requested (h : s.AtRest files) (hrooted : s.passing.Rooted place)
    (hopen : s.hashes.closed = false) (hfiles : files.root.isWellNamed = true) {ps : List Path}
    (hps : s.Harmless files (.files ps)) : ∀ p ∈ s.requested ps, s.IdleAt files p := by
  intro p hp
  obtain ⟨hmem, hindexable⟩ := (mem_requested hrooted fun q hq => (hps q hq).1).1 hp
  obtain ⟨hspelled, hwalked | ⟨bytes, hholds⟩ | hnothing⟩ := hps p hmem
  · exact h.walked p hwalked
  · exact h.walked p (mem_walk_of_holdsFile hrooted hfiles hholds hindexable)
  · refine idleAt_of_find hopen (fun bytes hfind => ?_) (h.missing p hspelled)
    rw [doesExist, hfind] at hnothing
    cases hnothing

theorem AtRest.serve {P : Scanner σ → Prop} (h : s.AtRest files) (hrooted : s.passing.Rooted place)
    (hclosed : s.closed = false) (hopen : s.hashes.closed = false)
    (hfiles : files.root.isWellNamed = true)
    (hdiscard : ∀ env v qs, s.SameRecords v → (∀ q ∈ qs, s.hashes.find? q = none) → P v →
      P (v.discard env qs))
    (hP : P s) (now : Timestamp) {q : ScanRequest} (hq : s.Harmless files q) :
    P (s.serve ⟨files, now⟩ q).1 ∧ s.SameRecords (s.serve ⟨files, now⟩ q).1 := by
  cases q with
  | all force =>
    obtain rfl : force = false := hq
    have htrimmed : s.trimmed ⟨files, .scanning true⟩ = s := by
      rw [trimmed, h.noneGone]
      rfl
    obtain ⟨r, hsync, _⟩ := synchronize_eq hopen ⟨files, .scanning true⟩ now
    have hserve : s.serve ⟨files, now⟩ (.all false) =
        s.synchronize ⟨files, .scanning true⟩ now := by
      simp [Scanner.serve, indexAll, hclosed]
    rw [hserve, hsync, htrimmed]
    exact afterFiles_of_idle (hdiscard _) h.walked hP
  | files ps =>
    obtain ⟨r, hprocess, _⟩ := process_eq hopen ⟨files, .scanning false⟩ now (s.requested ps) {}
    have hserve : s.serve ⟨files, now⟩ (.files ps) =
        s.process ⟨files, .scanning false⟩ now (s.requested ps) {} := by
      simp [Scanner.serve, indexFiles, hclosed]
    rw [hserve, hprocess]
    exact afterFiles_of_idle (hdiscard _) (h.idle_requested hrooted hopen hfiles hq) hP

end AtRest

section Rescans

variable {V : Shelf σ} {intact : σ → Prop} {K : List (Keeper V intact)} {files : FileTree}
  {place : List Name}

/-- What may follow on a scan while the files stay the same: requests, with the calls they make, and
closing everything and opening it again on the rows and records that are left. -/
inductive Rescanned (V : Shelf σ) (files : FileTree) (s : Scanner σ) :
    List IndexCall → Scanner σ → Prop
  | nothing : Rescanned V files s [] s
  | served {calls t} (h : Rescanned V files s calls t) (now : Timestamp) (q : ScanRequest)
    (hq : t.Harmless files q) :
    Rescanned V files s (calls ++ (t.logged.serve ⟨files, now⟩ q).1.facts.2)
      (t.serve ⟨files, now⟩ q).1
  | reopened {calls t u start hashes facts} (h : Rescanned V files s calls t) (now : Timestamp)
    (hopen : V.IsOpen facts)
    (hrows : ∀ k, V.rows k facts = V.rows k (t.close ⟨files, now⟩).1.facts)
    (hrecords : hashes.files = (t.close ⟨files, now⟩).1.hashes.files)
    (hu : open? files start t.options t.indexers hashes facts = .ok u)
    (hroot : u.root = t.root) : Rescanned V files s calls u

structure Unmoved (V : Shelf σ) (s t : Scanner σ) : Prop extends s.SameRecords t where
  stores : V.IsOpen t.facts
  rows : ∀ k, V.rows k t.facts = V.rows k s.facts

variable {s t : Scanner σ}

theorem Tended.unmoved_discard (h : s.Tended K) (hintact : intact s.facts)
    (ht : Unmoved V s t) (env : Surroundings) {ps : List Path}
    (hps : ∀ p ∈ ps, s.hashes.find? p = none) : Unmoved V s (t.discard env ps) := by
  obtain ⟨hcarries, hrows, _⟩ := Keeper.callEach_removed K env ps ht.stores
  rw [← h.indexers, ← ht.indexers] at hcarries hrows
  have hrecords := sameRecords_discard env fun p hp => ht.hashes ▸ hps p hp
  refine ⟨ht.toSameRecords.trans hrecords, hcarries.isOpen, fun k => ?_⟩
  refine Eq.trans ?_ (ht.rows k)
  rcases hrows k with hsame | ⟨hown, hless⟩
  · exact hsame
  · refine hless.trans (Rows.deleteFiles_eq_self fun r hr hmem => ?_)
    have hrecord := h.recorded hintact k hown r (ht.rows k ▸ hr)
    rw [hps r.file hmem] at hrecord
    cases hrecord

theorem Unmoved.serve (h : s.Tended K) (hintact : intact s.facts) (ht : Unmoved V s t)
    (hrest : t.AtRest files) (hrooted : t.passing.Rooted place) (hclosed : t.closed = false)
    (hfiles : files.root.isWellNamed = true) (now : Timestamp) {q : ScanRequest}
    (hq : t.Harmless files q) :
    (t.logged.serve ⟨files, now⟩ q).1.facts.2 = [] ∧ Unmoved V s (t.serve ⟨files, now⟩ q).1 := by
  have hopen : t.hashes.closed = false := ht.hashes ▸ h.isOpen
  constructor
  · -- The scanner that writes down its calls is at rest too.
    have hlogged : t.logged.AtRest files := ⟨hrest.noneGone, hrest.walked, hrest.missing⟩
    have hrootedLogged : t.logged.passing.Rooted place := ⟨hrooted.root, hrooted.plain, rfl⟩
    refine (hlogged.serve (P := fun v => v.facts.2 = []) hrootedLogged hclosed hopen hfiles
      (fun env v qs hv _ hlog => ?_) rfl now (q := q) ?_).1
    · exact (log_discard hv.indexers qs).trans hlog
    · cases q <;> exact hq
  · refine (hrest.serve hrooted hclosed hopen hfiles (fun env v qs _ hqs hv => ?_) ht now hq).1
    exact h.unmoved_discard hintact hv env fun q hmem => ht.hashes ▸ hqs q hmem

theorem Unmoved.reopened (h : s.Tended K) (hclosed : s.closed = false) (ht : Unmoved V s t)
    {start : Path} {now : Timestamp} {hashes : HashTable} {facts : σ} (hopen : V.IsOpen facts)
    (hrows : ∀ k, V.rows k facts = V.rows k (t.close ⟨files, now⟩).1.facts)
    (hrecords : hashes.files = (t.close ⟨files, now⟩).1.hashes.files) {u : Scanner σ}
    (hu : open? files start t.options t.indexers hashes facts = .ok u)
    (hroot : u.root = t.root) : Unmoved V s u := by
  have hcloses : (t.close ⟨files, now⟩).1.hashes.files = t.hashes.files ∧
      ∀ k, V.rows k (t.close ⟨files, now⟩).1.facts = V.rows k t.facts := by
    unfold close
    rw [ht.closed.trans hclosed, if_neg (by decide), ht.indexers, h.indexers]
    exact ⟨rfl, Keeper.callAll_close K _ t.facts⟩
  obtain ⟨canonical, _, rfl⟩ := open?_eq_ok hu
  have hsame : s.SameProject ⟨canonical, t.options, t.indexers, hashes.reopen, facts, false⟩ :=
    ⟨hroot.trans ht.root, ht.options, ht.indexers, hclosed.symm⟩
  refine ⟨⟨hsame, ?_⟩, hopen, fun k => ?_⟩
  · have hfilesSame : hashes.files = s.hashes.files := by
      rw [hrecords, hcloses.1, ht.hashes]
    change (⟨hashes.files, false⟩ : HashTable) = s.hashes
    rw [hfilesSame, ← h.isOpen]
  · exact ((hrows k).trans (hcloses.2 k)).trans (ht.rows k)

/-- Behind a full scan without failures, whatever scans of the unchanged files follow, and however
often everything is closed and opened again in between: no file is handed to an indexer, and every
row of every store and every record with its time stays as it is. -/
theorem rescans_change_nothing (K : List (Keeper V intact)) {s : Scanner σ} (hs : ReachedBy K s)
    (hfiles : files.root.isWellNamed = true) (htext : ∀ p ∈ s.walk files, files.isText p = true)
    {now : Timestamp} {t : Scanner σ} {r : ScanReport}
    (hscan : s.indexAll ⟨files, now⟩ false = (t, .ok r)) (hfailed : r.failed = 0)
    (hintact : intact t.facts) {calls : List IndexCall} {u : Scanner σ}
    (hu : Rescanned V files t calls u) :
    calls = [] ∧ (∀ k, V.rows k u.facts = V.rows k t.facts) ∧ u.hashes.files = t.hashes.files := by
  obtain ⟨htended, hclosed, place, hroot, hplain⟩ := hs.tended
  have hrooted : s.passing.Rooted place := ⟨hroot, hplain, rfl⟩
  obtain ⟨hsame, _, hrest⟩ := atRest_of_indexAll hrooted htended.isOpen hfiles htext hscan hfailed
  have ht : t.Tended K := by
    have hcall := tended_invariant.indexAll ⟨files, now⟩ false (fun _ _ _ _ => trivial) htended
    rwa [hscan] at hcall
  have hclosedT : t.closed = false := hsame.closed.trans hclosed
  suffices hrun : calls = [] ∧ Unmoved V t u from
    ⟨hrun.1, hrun.2.rows, congrArg HashTable.files hrun.2.hashes⟩
  induction hu with
  | nothing => exact ⟨rfl, ⟨.refl t, ht.stores, fun _ => rfl⟩⟩
  | served _ now q hq ih =>
    obtain ⟨hcalls, hunmoved⟩ := ih
    have hrootedU := hunmoved.toSameProject.rooted (hsame.rooted hrooted)
    obtain ⟨hnone, hnext⟩ := hunmoved.serve ht hintact (hrest.congr hunmoved.toSameRecords)
      hrootedU (hunmoved.closed.trans hclosedT) hfiles now hq
    exact ⟨by rw [hcalls, hnone]; rfl, hnext⟩
  | reopened _ now hopen hrows hrecords hu hroot ih =>
    obtain ⟨hcalls, hunmoved⟩ := ih
    exact ⟨hcalls, hunmoved.reopened ht hclosedT hopen hrows hrecords hu hroot⟩

end Rescans

/-- A file whose path is no text is handed out by every full scan: its record comes back under a path
that no walk gives. -/
theorem Employs.hands_out_illFormed {V : Shelf σ} {W : List (Scribe V)} {s : Scanner σ}
    {files : FileTree} (h : s.Employs W)
    (hclosed : s.closed = false) (hnodup : (s.walk files).Nodup) {p : Path} {bytes : List UInt8}
    (hmet : s.Meets files p bytes) (hraw : files.isText p = false) (now : Timestamp) :
    indexCalls s.indexers (p, bytes) ⊆ (s.logged.serve ⟨files, now⟩ (.all false)).1.facts.2 := by
  let env : Surroundings := ⟨files, .scanning true⟩
  have hlogged := h.logged
  obtain ⟨hemploys, hledger⟩ := hlogged.trimmed env
  have hsame := s.logged.sameProject_trimmed env
  have hdue : ((s.logged.trimmed env).ledger V.logged).due? s.options.maxFileSize files p =
      some bytes := by
    have hmet' : s.logged.Meets files p bytes := ⟨hmet.mem, hmet.find, hmet.small⟩
    rw [hledger]
    exact hmet'.due?_of_not_knows fun hknown => Bool.noConfusion (hraw.symm.trans hknown.1)
  have hlog : ((s.logged.trimmed env).afterFiles env now (s.walk files)).facts.2 = _ :=
    hemploys.log_afterFiles (hsame.indexers.trans rfl) now hnodup
  have hserve : s.logged.serve ⟨files, now⟩ (.all false) = s.logged.synchronize env now :=
    serve_update hclosed ⟨files, now⟩
  have hsync : s.logged.synchronize env now = (s.logged.trimmed env).process env now (s.walk files)
      { removed := (s.logged.gone files).length } := hlogged.synchronize_eq env now
  rw [hserve, hsync, hemploys.process env now hnodup]
  intro c hc
  refine hlog ▸ List.mem_append_right _ (List.mem_flatMap.2 ⟨(p, bytes), ?_, hc⟩)
  exact Ledger.mem_entries.2 ⟨hmet.mem, hsame.options ▸ hdue⟩

section

open Registry (linkedPath linkedProject manifestPath rawPath rawProject)

theorem configScanner_reachedBy : ReachedBy Facts.keepers configScanner := by
  have hopen : open? (Registry.projectWith "") (.ofString "/p") {}
      (Facts.keepers.map Keeper.indexer) .new Facts.empty = .ok configScanner := by
    rw [Facts.map_indexer_keepers]
    rfl
  exact .opened (Facts.isOpen_withRows Facts.empty) Facts.rows_empty hopen

theorem rows_withRows (f : Facts) (k : Facts.parts.whole.Slot) :
    Facts.parts.whole.rows k (Facts.empty.withRows f) = Facts.parts.whole.rows k f := by
  obtain ⟨i, k⟩ := k
  cases i <;> cases k <;> rfl

/-- The index of a project with a manifest is closed and opened again, and the manifest is asked for
with a file that is not there. -/
theorem rescans_change_nothing_manifest :
    let files := nestedProject "b"
    let m : Moment := ⟨files, ⟨1, 0⟩⟩
    let t := nestedScanner "b"
    let u : Scanner Facts := { t with
      hashes := (t.close m).1.hashes.reopen
      facts := Facts.empty.withRows (t.close m).1.facts }
    let q : ScanRequest := .files [nestedPath "b", manifestPath]
    t.facts.extensions.allKeys = .ok ["A"] ∧
      (u.logged.serve m q).1.facts.2 = [] ∧
      (∀ k, Facts.parts.whole.rows k (u.serve m q).1.facts = Facts.parts.whole.rows k t.facts) ∧
      (u.serve m q).1.hashes.files = t.hashes.files := by
  intro files m t u q
  have hsame : configScanner.SameProject t := nestedScanner_sameProject "b"
  have hfiles : files.root.isWellNamed = true := by decide +kernel
  have hreport : (configScanner.indexAll ⟨files, ⟨0, 0⟩⟩ false).2 =
      .ok { seen := 1, indexed := 1 } := by decide +kernel
  have hscan : configScanner.indexAll ⟨files, ⟨0, 0⟩⟩ false = (t, .ok { seen := 1, indexed := 1 }) :=
    Prod.ext rfl hreport
  have hopened : open? files (.ofString "/p") t.options t.indexers (t.close m).1.hashes
      (Facts.empty.withRows (t.close m).1.facts) = .ok u := by
    have hcanonical : files.canonical? (.ofString "/p") = .ok (.ofString "/p") := rfl
    have hroot : t.root = .ofString "/p" := hsame.root
    have hclosed : t.closed = false := hsame.closed
    unfold open?
    rw [hcanonical]
    change Except.ok (Scanner.mk _ _ _ _ _ _) = Except.ok (Scanner.mk t.root _ _ _ _ t.closed)
    rw [hroot, hclosed]
  have hreopened : Rescanned Facts.parts.whole files t [] u :=
    .reopened .nothing ⟨1, 0⟩ (Facts.isOpen_withRows _) (rows_withRows _) rfl hopened rfl
  have hharmless : u.Harmless files q := by
    have hroot : u.root = .ofString "/p" := hsame.root
    unfold Harmless
    rw [hroot]
    refine List.forall_mem_cons.2
      ⟨⟨?_, .inr (.inl ?_)⟩, List.forall_mem_singleton.2 ⟨?_, .inr (.inr ?_)⟩⟩
    · exact ⟨["b".toList, "manifest.xml".toList], by decide +kernel, rfl⟩
    · exact ⟨_, ["p".toList], ["b".toList, "manifest.xml".toList], rfl, rfl, rfl⟩
    · exact ⟨["manifest.xml".toList], by decide +kernel, rfl⟩
    · decide +kernel
  obtain ⟨hcalls, hrows, hrecords⟩ := rescans_change_nothing Facts.keepers configScanner_reachedBy
    hfiles (fun p _ => isText_of_nil rfl p) hscan rfl trivial (.served hreopened ⟨1, 0⟩ q hharmless)
  exact ⟨by decide +kernel, hcalls, hrows, hrecords⟩

theorem rawProject_hands_out {s : Scanner Facts} (hs : Reached Facts.scribes s)
    (hsame : configScanner.SameProject s) (now : Timestamp) :
    rawPath ∈ (s.logged.serve ⟨rawProject, now⟩ (.all false)).1.facts.2.map IndexCall.path := by
  let bytes := "<manifest><meta><name>A</name></meta></manifest>".toUTF8.toList
  have hwalk : s.walk rawProject = [rawPath] := (hsame.walk rawProject).trans (by decide +kernel)
  have hmet : s.Meets rawProject rawPath bytes := by
    refine ⟨by simp [hwalk], rfl, ?_⟩
    rw [hsame.options]
    decide +kernel
  obtain ⟨hemploys, hclosed, _⟩ :=
    hs.employs fun w hw => keepsOpen_of_clears (Facts.scribes_clear w hw)
  have hcalls : (indexCalls s.indexers (rawPath, bytes)).map IndexCall.path =
      List.replicate 3 rawPath := by
    rw [hsame.indexers]
    decide +kernel
  have hsub := hemploys.hands_out_illFormed hclosed (by simp [hwalk]) hmet (by decide +kernel) now
  exact List.map_subset _ hsub (hcalls ▸ List.mem_cons_self ..)

/-- Behind a full scan without failures, a manifest that is asked for through a link is handed out to
the three indexers that accept it. In a directory whose name is no text it is handed out again by the
next full scan. -/
theorem rescans_hand_out_again :
    let files := linkedProject
    let q : ScanRequest := .files [linkedPath]
    let t := (configScanner.indexAll ⟨files, ⟨0, 0⟩⟩ false).1
    let u := (configScanner.indexAll ⟨rawProject, ⟨0, 0⟩⟩ false).1
    (configScanner.indexAll ⟨files, ⟨0, 0⟩⟩ false).2 = .ok { seen := 1, indexed := 1 } ∧
      Spelled t.root linkedPath ∧ files.isFile linkedPath = true ∧
      (t.logged.serve ⟨files, ⟨1, 0⟩⟩ q).1.facts.2.map IndexCall.path =
        List.replicate 3 linkedPath ∧
      (configScanner.indexAll ⟨rawProject, ⟨0, 0⟩⟩ false).2 = .ok { seen := 1, indexed := 1 } ∧
      rawPath ∈ (u.logged.serve ⟨rawProject, ⟨1, 0⟩⟩ (.all false)).1.facts.2.map IndexCall.path := by
  intro files q t u
  have hsame : ∀ m, configScanner.SameProject (configScanner.indexAll m false).1 := fun m =>
    (OnStores.after ⟨rfl, rfl, rfl⟩ [(m, .indexAll false)]).2
  have hspelled : Spelled t.root linkedPath := by
    rw [(hsame ⟨files, ⟨0, 0⟩⟩).root]
    exact ⟨["link".toList, "manifest.xml".toList], by decide +kernel, rfl⟩
  refine ⟨by decide +kernel, hspelled, by decide +kernel, by decide +kernel, by decide +kernel, ?_⟩
  exact rawProject_hands_out (.called _ (.indexAll false) configScanner_reached) (hsame _) ⟨1, 0⟩

end

end Scanner
end ProjectIndex
