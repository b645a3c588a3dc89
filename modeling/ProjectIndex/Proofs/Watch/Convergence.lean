import ProjectIndex.Proofs.Files.Edits
import ProjectIndex.Proofs.Scan.Mirror
import ProjectIndex.Proofs.Watch.Pending

/-!
A project that is edited while its changes are worked off. Edits and the steps of the daemon may come
in any order, and a job is done on the files as they are by then. The last piece of work on a path
still finds what it needs there, so once nothing is left to do the index mirrors the files.
-/
namespace ProjectIndex

open FileTree

def Job.call : Job → ScanCall
  | .indexAll force => .indexAll force
  | .index ps => .indexFiles ps
  | .remove ps => .removeFiles ps

/-- What may happen next: a file is edited, a change is looked at, the batch is taken, or the oldest
job is done. -/
inductive Move where
  | edit (e : Edit)
  | receive
  | flush
  | work (now : Timestamp)

structure World (σ : Type) where
  files : FileTree
  pipeline : Pipeline σ

namespace World

variable {σ : Type}

def scanner (w : World σ) : Scanner σ := w.pipeline.scanner

def watcher (w : World σ) : Watcher := ⟨w.scanner.root, w.scanner.skipNames⟩

def start (files : FileTree) (s : Scanner σ) : World σ := ⟨files, .start s [.indexAll false]⟩

def step (w : World σ) : Move → World σ
  | .edit e =>
    let (files, changes) := w.watcher.follow w.files [e]
    ⟨files, w.pipeline.report changes⟩
  | .receive => { w with pipeline := w.pipeline.receive }
  | .flush => { w with pipeline := w.pipeline.flush }
  | .work now => { w with pipeline := w.pipeline.work ⟨w.files, now⟩ }

def run (w : World σ) (moves : List Move) : World σ := moves.foldl step w

def callsOf (w : World σ) : Move → List (Moment × ScanCall)
  | .work now => (w.pipeline.jobs.head?.map fun j => ((⟨w.files, now⟩ : Moment), j.call)).toList
  | _ => []

def calls : World σ → List Move → List (Moment × ScanCall)
  | _, [] => []
  | w, m :: moves => w.callsOf m ++ (w.step m).calls moves

/-- A file that a scan would take is written or deleted. It stands there already, or there is room
for it; once written, it can be opened. -/
def EditsFile (w : World σ) : Edit → Prop
  | .write p bytes => w.scanner.isIndexable p = true ∧ w.files.HasRoom w.scanner.root p ∧
      (w.files.write p bytes).doesExist p = true
  | .delete p => w.scanner.isIndexable p = true ∧ p ≠ w.scanner.root ∧
      ∃ bytes, w.files.HoldsFile w.scanner.root p bytes
  | _ => False

def Allows (w : World σ) : Move → Prop
  | .edit e => w.EditsFile e
  | .work now => ∀ j ∈ w.pipeline.jobs.head?,
      ∃ r, (j.run ⟨w.files, now⟩ w.scanner).2 = .ok r ∧ r.failed = 0
  | _ => True

def Admits : World σ → List Move → Prop
  | _, [] => True
  | w, m :: moves => w.Allows m ∧ (w.step m).Admits moves

structure IsIdle (w : World σ) : Prop where
  incoming : w.pipeline.incoming = []
  batch : w.pipeline.batch.isEmpty = true
  jobs : w.pipeline.jobs = []

end World

namespace Scanner

variable {σ : Type} {s : Scanner σ} {place : List Name} {t t' : FileTree}

/-- The files changed at one path, as a change of it tells. -/
structure Turns (s : Scanner σ) (t t' : FileTree) (c : FileChange) : Prop where
  spares : Spares s.root c.path t t'
  spelled : Spelled s.root c.path
  isIndexable : s.isIndexable c.path = true
  opens : ∀ bytes, t'.HoldsFile s.root c.path bytes → ∃ e, t'.find c.path = .ok e
  met : c.kind.need.MetBy (∃ bytes, t'.HoldsFile s.root c.path bytes)
  existed : c.kind = .modified → ∃ bytes, t.HoldsFile s.root c.path bytes

theorem Turns.canRead {c : FileChange} (h : s.Turns t t' c) (hread : s.CanRead t) :
    s.CanRead t' := by
  refine ⟨h.spares.isWellNamed, fun q bytes hq hindexable => ?_, fun hlinks => ?_⟩
  · by_cases hqp : q = c.path
    · subst hqp
      exact h.opens bytes hq
    · have hbefore := (h.spares.holdsFile q bytes hqp).1 hq
      exact h.spares.find q bytes hqp hbefore (hread.canOpen q bytes hbefore hindexable)
  · exact h.spares.linkFree (hread.linkFree hlinks)

theorem Turns.eligible {c : FileChange} (h : s.Turns t t' c) {q : Path} (hq : q ≠ c.path)
    {bytes : List UInt8} : s.Eligible t' q bytes ↔ s.Eligible t q bytes :=
  and_congr_left fun _ => h.spares.holdsFile q bytes hq

theorem changes_eq {p : Path} (hindexable : s.isIndexable p = true) (hdir : t'.isDir p = false)
    {kind : EventKind} {k : ChangeKind} (hkind : FileEvent.changeKind? t' kind p = some k) :
    Watcher.changes ⟨s.root, s.skipNames⟩ t' ⟨kind, [p]⟩ = [⟨p, k⟩] := by
  obtain ⟨htype, hskip⟩ := Bool.and_eq_true_iff.1 hindexable
  have hevent : FileEvent.changes ⟨kind, [p]⟩ t' = [⟨p, k⟩] := by
    simp [FileEvent.changes, hdir, htype, hkind]
  unfold Watcher.changes
  rw [hevent, List.filter_singleton]
  simp only [hskip, cond_true]

theorem turns_write (hrooted : s.passing.Rooted place) (hread : s.CanRead t) {p : Path}
    {bytes : List UInt8} (hindexable : s.isIndexable p = true) (hroom : t.HasRoom s.root p)
    (hexists : (t.write p bytes).doesExist p = true) :
    ∃ c, Watcher.follow ⟨s.root, s.skipNames⟩ t [.write p bytes] = (t.write p bytes, [c]) ∧
      s.Turns t (t.write p bytes) c := by
  have hroot : s.root = pathOf place := hrooted.root
  obtain ⟨x, hlies, hfree⟩ := hroom
  rw [hroot] at hlies
  obtain ⟨⟨hspares, hlies', hdirect'⟩, hfile⟩ :=
    hlies.write hrooted.plain hread.isWellNamed hfree bytes
  obtain ⟨e, he⟩ := doesExist_iff.1 hexists
  have hentry : e = .file bytes := by
    have hget := hlies'.get?_of_find hrooted.plain hdirect' he
    exact Option.some.inj (hget.symm.trans hfile)
  have hdir : (t.write p bytes).isDir p = false := by rw [isDir, he, hentry]; rfl
  -- The event tells whether the file was there before.
  obtain ⟨kind, k, hevents, hkind, hneed, hexisted⟩ : ∃ kind k,
      (Edit.write p bytes).events t = [⟨kind, [p]⟩] ∧
        FileEvent.changeKind? (t.write p bytes) kind p = some k ∧ k.need = .file ∧
        (k = .modified → ∃ old, t.HoldsFile s.root p old) := by
    cases hold : t.doesExist p with
    | false => exact ⟨.create, .created, by rw [Edit.events, hold]; rfl, rfl, rfl, nofun⟩
    | true =>
      refine ⟨.modify, .modified, by rw [Edit.events, hold]; rfl, rfl, rfl, fun _ => ?_⟩
      exact hroot ▸ hlies.holdsFile_of_doesExist hrooted.plain hread.isWellNamed hfree hold
  refine ⟨⟨p, k⟩, ?_, hroot ▸ hspares, hroot ▸ hlies.spelled, hindexable,
    fun _ _ => ⟨e, he⟩, ?_, hexisted⟩
  · have hchange := changes_eq hindexable hdir hkind
    simp only [Watcher.follow, Edit.apply, hevents, List.flatMap_cons, List.flatMap_nil, hchange,
      List.append_nil]
  · rw [hneed, hroot]
    exact ⟨bytes, (hlies'.holdsFile_iff hrooted.plain hspares.isWellNamed).2 hfile⟩

theorem turns_delete (hrooted : s.passing.Rooted place) (hread : s.CanRead t) {p : Path}
    {bytes : List UInt8} (hindexable : s.isIndexable p = true) (hne : p ≠ s.root)
    (hholds : t.HoldsFile s.root p bytes) :
    Watcher.follow ⟨s.root, s.skipNames⟩ t [.delete p] = (t.delete p, [⟨p, .deleted⟩]) ∧
      s.Turns t (t.delete p) ⟨p, .deleted⟩ := by
  have hroot : s.root = pathOf place := hrooted.root
  obtain ⟨x, hlies, hfile⟩ : ∃ x, t.LiesAt (pathOf place) p x ∧
      t.root.get? x = some (.file bytes) := by
    obtain ⟨start, below, hstart, hget, rfl⟩ := hholds
    rw [hroot] at hstart
    refine ⟨start ++ below, ⟨start, below, hstart, fun n hn => ?_, ?_, by rw [hroot], rfl⟩, hget⟩
    · exact (Entry.plain_of_get? hread.isWellNamed hget).1 n (List.mem_append_right _ hn)
    · rintro rfl
      exact hne rfl
  obtain ⟨hentry, ⟨hspares, hlies', hdirect'⟩, hgone⟩ :=
    hlies.delete hrooted.plain hread.isWellNamed hfile
  have hnothing : ∀ e, (t.delete p).find p ≠ .ok e := by
    intro e he
    have hget := hlies'.get?_of_find hrooted.plain hdirect' he
    cases hgone.symm.trans hget
  have hdir : (t.delete p).isDir p = false := by
    unfold isDir
    split
    · next e he => exact absurd he (hnothing e)
    · rfl
  have hholds' : ¬ ∃ content, (t.delete p).HoldsFile s.root p content := by
    rintro ⟨content, hcontent⟩
    rw [hroot, hlies'.holdsFile_iff hrooted.plain hspares.isWellNamed] at hcontent
    cases hgone.symm.trans hcontent
  refine ⟨?_, hroot ▸ hspares, hroot ▸ hlies.spelled, hindexable,
    fun content hcontent => absurd ⟨content, hcontent⟩ hholds', hholds', nofun⟩
  have hevents : (Edit.delete p).events t = [⟨.remove, [p]⟩] := by
    rw [Edit.events, hentry, hfile]
    rfl
  have hchange : Watcher.changes ⟨s.root, s.skipNames⟩ (t.delete p) ⟨.remove, [p]⟩ =
      [⟨p, .deleted⟩] := changes_eq hindexable hdir rfl
  simp only [Watcher.follow, Edit.apply, hevents, List.flatMap_cons, List.flatMap_nil, hchange,
    List.append_nil]

end Scanner

def Job.Proper {σ : Type} (s : Scanner σ) : Job → Prop
  | .indexAll force => force = false
  | .index ps => ∀ p ∈ ps, Spelled s.root p ∧ s.isIndexable p = true
  | .remove ps => ∀ p ∈ ps, Spelled s.root p

namespace Job

variable {σ : Type} {s : Scanner σ} {place : List Name} {m : Moment} {j : Job}

theorem run_fst (m : Moment) (s : Scanner σ) (j : Job) : (j.run m s).1 = s.call m j.call := by
  cases j <;> rfl

theorem Proper.spelled (h : j.Proper s) : j.call.Spelled s.root := by
  cases j with
  | index ps => exact fun p hp => (h p hp).1
  | indexAll force => trivial
  | remove ps => trivial

theorem Proper.sameProject {t : Scanner σ} (h : j.Proper s) (hsame : s.SameProject t) :
    j.Proper t := by
  cases j with
  | indexAll force => exact h
  | index ps =>
    exact fun p hp => ⟨hsame.root ▸ (h p hp).1, (hsame.isIndexable p).trans (h p hp).2⟩
  | remove ps => exact fun p hp => hsame.root ▸ h p hp

/-- A job leaves a path recorded as it should be if it finds what it needs, and does not touch the
record of a path it does not look at. -/
theorem Proper.due (h : j.Proper s) (hrooted : s.passing.Rooted place)
    (hrecords : s.RecordsSpelled s.root) (hread : s.CanRead m.files) {s' : Scanner σ}
    {r : ScanReport} (hrun : j.run m s = (s', .ok r)) (hfailed : r.failed = 0) (p : Path) :
    (j.need? p = none → s'.hashes.digest? p = s.hashes.digest? p) ∧
      ∀ n, j.need? p = some n → n.MetBy (∃ bytes, m.files.HoldsFile s.root p bytes) →
        s.Due m.files p (s'.hashes.digest? p) := by
  cases j with
  | indexAll force =>
    have hforce : force = false := h
    subst hforce
    exact ⟨nofun, fun n _ _ => Scanner.due_indexAll hrooted hrecords hread hrun hfailed p⟩
  | index ps =>
    obtain ⟨hout, hin⟩ := Scanner.due_indexFiles hrooted hrecords.isOpen hread
      (fun q hq => (h q hq).1) hrun hfailed p
    rw [need?]
    by_cases hp : p ∈ ps
    · rw [if_pos hp]
      refine ⟨nofun, fun n hn hmet => ?_⟩
      cases hn
      obtain ⟨bytes, hholds⟩ := hmet
      exact hin bytes hp hholds (h p hp).2
    · rw [if_neg hp]
      exact ⟨fun _ => hout hp, nofun⟩
  | remove ps =>
    -- A removal leaves no record, which is right where there is no file any more.
    have hclosed : s.closed = false := by
      by_contra hclosed
      have hrefused : s.removeFiles m ps = (s, .error Scanner.closedError) :=
        if_pos (by simpa using hclosed)
      cases hrefused.symm.trans hrun
    have hdigest := Scanner.digest?_removeFiles (m := m) hrooted hrecords.isOpen hclosed h p
    have hscanner : (s.removeFiles m ps).1 = s' := congrArg Prod.fst hrun
    rw [hscanner] at hdigest
    rw [need?, hdigest]
    by_cases hp : p ∈ ps
    · rw [if_pos hp, if_pos hp]
      refine ⟨nofun, fun n hn hmet => ?_⟩
      cases hn
      exact Scanner.due_none fun bytes heligible => hmet ⟨bytes, heligible.1⟩
    · rw [if_neg hp, if_neg hp]
      exact ⟨fun _ => rfl, nofun⟩

end Job

namespace World

variable {σ : Type} {R : Registry σ} {found : Path → List UInt8 → Prop} {s : Scanner σ}
  {place : List Name} {w : World σ}

/-- Where work on a path is left, the last piece of it will find what it needs. Where none is left,
the path is recorded as it should be. -/
def Owes (w : World σ) (found : Path → List UInt8 → Prop) (s : Scanner σ) (p : Path) :
    Option Need → Prop
  | some need => need.MetBy (∃ bytes, w.files.HoldsFile s.root p bytes)
  | none => s.Due w.files p (w.scanner.hashes.digest? p) ∧
      ∀ bytes, s.Eligible w.files p bytes → found p bytes

/-- What every move keeps. `s` is the scanner before the first of them, and `found` tells the
contents that a path has had. -/
structure Sound (R : Registry σ) (found : Path → List UInt8 → Prop) (s : Scanner σ)
    (w : World σ) : Prop where
  project : s.SameProject w.scanner
  readable : s.CanRead w.files
  records : w.scanner.RecordsSpelled s.root
  facts : R.Synchronized found w.scanner
  changes : ∀ c ∈ w.pipeline.batch.changes ++ w.pipeline.incoming,
    Spelled s.root c.path ∧ s.isIndexable c.path = true
  jobs : ∀ j ∈ w.pipeline.jobs, j.Proper s
  tidy : w.pipeline.batch.Tidy
  sensible : ∀ p, Sensible (w.pipeline.trail p)
  owed : ∀ p, w.Owes found s p (w.pipeline.needs p).getLast?

theorem EditsFile.turns (hrooted : s.passing.Rooted place) (h : w.Sound R found s) {e : Edit}
    (he : w.EditsFile e) :
    ∃ c, w.step (.edit e) = ⟨e.apply w.files, w.pipeline.report [c]⟩ ∧
      s.Turns w.files (e.apply w.files) c := by
  have hroot := h.project.root
  have hwatcher : w.watcher = ⟨s.root, s.skipNames⟩ := by
    rw [watcher, Scanner.skipNames, Scanner.skipNames, hroot, h.project.options]
  have hstep : ∀ c, Watcher.follow ⟨s.root, s.skipNames⟩ w.files [e] = (e.apply w.files, [c]) →
      w.step (.edit e) = ⟨e.apply w.files, w.pipeline.report [c]⟩ := by
    intro c hfollow
    simp only [step, hwatcher, hfollow]
  cases e with
  | write p bytes =>
    obtain ⟨hindexable, hroom, hexists⟩ := he
    rw [h.project.isIndexable] at hindexable
    rw [hroot] at hroom
    obtain ⟨c, hfollow, hturns⟩ :=
      Scanner.turns_write hrooted h.readable hindexable hroom hexists
    exact ⟨c, hstep c hfollow, hturns⟩
  | delete p =>
    obtain ⟨hindexable, hne, bytes, hholds⟩ := he
    rw [h.project.isIndexable] at hindexable
    rw [hroot] at hne hholds
    obtain ⟨hfollow, hturns⟩ := Scanner.turns_delete hrooted h.readable hindexable hne hholds
    exact ⟨_, hstep _ hfollow, hturns⟩
  | makeDir p => exact absurd he id
  | rename p q => exact absurd he id
  | link p target => exact absurd he id

theorem Sound.edit (hrooted : s.passing.Rooted place) (h : w.Sound R found s) {e : Edit}
    (he : w.EditsFile e) : (w.step (.edit e)).Sound R found s := by
  obtain ⟨c, hstep, hturns⟩ := he.turns hrooted h
  rw [hstep]
  refine ⟨h.project, hturns.canRead h.readable, h.records, h.facts, fun d hd => ?_, h.jobs, h.tidy,
    fun p => ?_, fun p => ?_⟩
  · rcases List.mem_append.1 hd with hd | hd
    · exact h.changes d (List.mem_append_left _ hd)
    · rcases List.mem_append.1 hd with hd | hd
      · exact h.changes d (List.mem_append_right _ hd)
      · exact List.mem_singleton.1 hd ▸ ⟨hturns.spelled, hturns.isIndexable⟩
  · change Sensible ((w.pipeline.report [c]).trail p)
    rw [Pipeline.trail_report]
    split
    · next hcp =>
      refine List.isChain_append.2 ⟨h.sensible p, List.isChain_singleton _, ?_⟩
      rintro earlier hlast later hfirst ⟨rfl, rfl⟩
      -- A deletion that is still to be worked off would find the file that was modified.
      have howed := h.owed p
      have hneed : (w.pipeline.needs p).getLast? = some .noFile := by
        rw [Pipeline.needs, List.getLast?_append, List.getLast?_map, Option.mem_def.1 hlast]
        rfl
      rw [hneed] at howed
      have hkind : c.kind = .modified := by simpa using hfirst
      exact howed (hcp ▸ hturns.existed hkind)
    · rw [List.append_nil]
      exact h.sensible p
  · change Owes ⟨e.apply w.files, _⟩ found s p ((w.pipeline.report [c]).needs p).getLast?
    rw [Pipeline.needs_report]
    by_cases hcp : c.path = p
    · rw [if_pos hcp, List.getLast?_concat]
      exact hcp ▸ hturns.met
    · rw [if_neg hcp, List.append_nil]
      have howed := h.owed p
      have hholds := fun bytes => hturns.spares.holdsFile p bytes (Ne.symm hcp)
      have heligible (bytes : List UInt8) :
          s.Eligible (e.apply w.files) p bytes ↔ s.Eligible w.files p bytes :=
        hturns.eligible (Ne.symm hcp)
      cases hlast : (w.pipeline.needs p).getLast? with
      | some need =>
        rw [hlast] at howed
        simpa only [Owes, hholds] using howed
      | none =>
        rw [hlast] at howed
        refine ⟨fun hash => (howed.1 hash).trans ?_,
          fun bytes hbytes => howed.2 bytes ((heligible bytes).1 hbytes)⟩
        simp only [heligible]

theorem Sound.oneSpelling (hrooted : s.passing.Rooted place) (h : w.Sound R found s) :
    w.pipeline.OneSpelling := fun c hc d hd hsame =>
  hrooted.eq_of_same (h.changes d hd).1 (h.changes c hc).1 hsame

theorem Sound.receive (hrooted : s.passing.Rooted place) (h : w.Sound R found s) :
    (w.step .receive).Sound R found s := by
  have hspelling := h.oneSpelling hrooted
  obtain ⟨hjobs, hscanner⟩ := w.pipeline.jobs_receive
  have hsame : (w.step .receive).scanner = w.scanner := hscanner
  refine ⟨hsame ▸ h.project, h.readable, hsame ▸ h.records, hsame ▸ h.facts, fun c hc => ?_,
    fun j hj => h.jobs j (hjobs ▸ hj), Pipeline.tidy_receive h.tidy hspelling,
    fun p => Pipeline.sensible_receive h.tidy hspelling (h.sensible p), fun p => ?_⟩
  · obtain ⟨d, hd, hpath⟩ := w.pipeline.paths_receive c hc
    exact hpath ▸ h.changes d hd
  · have howed := h.owed p
    rw [← Pipeline.getLast?_needs_receive h.tidy hspelling (h.sensible p)] at howed
    unfold Owes at howed ⊢
    rw [hsame]
    exact howed

theorem Sound.flush (h : w.Sound R found s) : (w.step .flush).Sound R found s := by
  refine ⟨h.project, h.readable, h.records, h.facts, fun c hc => ?_, fun j hj => ?_, fun p => ?_,
    fun p => ?_, fun p => ?_⟩
  · exact h.changes c (List.mem_append_right _ hc)
  · rcases List.mem_append.1 hj with hj | hj
    · exact h.jobs j hj
    · have hpaths : ∀ p ∈ w.pipeline.batch.toRemove ++ w.pipeline.batch.toIndex,
          Spelled s.root p ∧ s.isIndexable p = true := by
        intro p hp
        obtain ⟨k, hk⟩ := ChangeBatch.mem_changes_of_mem_jobs hp
        exact h.changes _ (List.mem_append_left _ hk)
      rcases List.mem_append.1 hj with hj | hj
      · split at hj
        · exact absurd hj List.not_mem_nil
        · rw [List.mem_singleton.1 hj]
          exact fun p hp => (hpaths p (List.mem_append_left _ hp)).1
      · split at hj
        · exact absurd hj List.not_mem_nil
        · rw [List.mem_singleton.1 hj]
          exact fun p hp => hpaths p (List.mem_append_right _ hp)
  · exact Nat.zero_le 1
  · have hsensible := h.sensible p
    rw [Pipeline.trail, kindsAt_append] at hsensible
    exact (List.isChain_append.1 hsensible).2.1
  · have howed := h.owed p
    rw [← Pipeline.needs_flush h.tidy] at howed
    exact howed

theorem step_work {j : Job} {js : List Job} (hjobs : w.pipeline.jobs = j :: js) (now : Timestamp) :
    w.step (.work now) = ⟨w.files, { w.pipeline with
      jobs := js, scanner := w.scanner.call ⟨w.files, now⟩ j.call }⟩ := by
  rw [← Job.run_fst]
  simp only [step, scanner, Pipeline.work, hjobs]

theorem Sound.work (hR : R.Replaces) (hD : R.Drops) (hrooted : s.passing.Rooted place)
    (h : w.Sound R found s) {now : Timestamp} (hallows : w.Allows (.work now))
    (hfound : ∀ c ∈ w.callsOf (.work now), ∀ p bytes,
      c.1.files.find p = .ok (.file bytes) → found p bytes) :
    (w.step (.work now)).Sound R found s := by
  cases hjobs : w.pipeline.jobs with
  | nil =>
    have hstep : w.step (.work now) = w := by
      simp only [step, Pipeline.work, hjobs]
    rw [hstep]
    exact h
  | cons j js =>
    have hproper : j.Proper w.scanner :=
      (h.jobs j (hjobs ▸ List.mem_cons_self ..)).sameProject h.project
    have hread := h.project.canRead h.readable
    have hrooted' := h.project.rooted hrooted
    have hcontents : ∀ p bytes, w.files.find p = .ok (.file bytes) → found p bytes :=
      hfound (⟨w.files, now⟩, j.call) (by rw [callsOf, hjobs]; exact List.mem_singleton_self _)
    obtain ⟨hrecords, hproject⟩ :=
      ((Scanner.recordsSpelled_invariant s.root).withProject s).call ⟨w.files, now⟩ j.call
        (fun p hp _ _ => by
          have hspelled := Scanner.spelled_of_looksAt hrooted' hread.isWellNamed hproper.spelled hp
          rwa [h.project.root] at hspelled) ⟨h.records, h.project⟩
    have hfacts := (Registry.synchronized_invariant hR hD).call ⟨w.files, now⟩ j.call
      (fun p _ bytes hfind => hcontents p bytes hfind) h.facts
    rw [step_work hjobs]
    refine ⟨hproject, h.readable, hrecords, hfacts, h.changes,
      fun k hk => h.jobs k (hjobs ▸ List.mem_cons_of_mem _ hk), h.tidy, h.sensible, fun p => ?_⟩
    have howed := h.owed p
    rw [Pipeline.needs_work hjobs (w.scanner.call ⟨w.files, now⟩ j.call),
      List.getLast?_append] at howed
    generalize List.getLast? (Pipeline.needs _ p) = last at howed ⊢
    cases last with
    | some need => exact howed
    | none =>
      refine ⟨?_, fun bytes hbytes => ?_⟩
      · -- The job is the last piece of work on the path, or it does not look at the path.
        obtain ⟨r, hreport, hfailed⟩ := hallows j (by rw [hjobs]; rfl)
        have hrun : j.run ⟨w.files, now⟩ w.scanner = (w.scanner.call ⟨w.files, now⟩ j.call, .ok r) :=
          Prod.ext (Job.run_fst ..) hreport
        obtain ⟨huntouched, hdue⟩ :=
          hproper.due hrooted' (h.project.root ▸ h.records) hread hrun hfailed p
        cases hneed : j.need? p with
        | none =>
          rw [hneed] at howed
          change s.Due w.files p ((w.scanner.call ⟨w.files, now⟩ j.call).hashes.digest? p)
          rw [huntouched hneed]
          exact howed.1
        | some need =>
          rw [hneed] at howed
          rw [h.project.root] at hdue
          exact h.project.due.1 (hdue need hneed howed)
      · exact hcontents p bytes (h.readable.find hrooted hbytes.1 hbytes.2.1)

theorem Sound.step (hR : R.Replaces) (hD : R.Drops) (hrooted : s.passing.Rooted place)
    (h : w.Sound R found s) {m : Move} (hallows : w.Allows m)
    (hfound : ∀ c ∈ w.callsOf m, ∀ p bytes,
      c.1.files.find p = .ok (.file bytes) → found p bytes) :
    (w.step m).Sound R found s := by
  cases m with
  | edit e => exact h.edit hrooted hallows
  | receive => exact h.receive hrooted
  | flush => exact h.flush
  | work now => exact h.work hR hD hrooted hallows hfound

theorem Sound.run (hR : R.Replaces) (hD : R.Drops) (hrooted : s.passing.Rooted place)
    (h : w.Sound R found s) {moves : List Move} (hadmits : w.Admits moves)
    (hfound : ∀ c ∈ w.calls moves, ∀ p bytes,
      c.1.files.find p = .ok (.file bytes) → found p bytes) :
    (w.run moves).Sound R found s := by
  induction moves generalizing w with
  | nil => exact h
  | cons m moves ih =>
    have hstep := h.step hR hD hrooted hadmits.1 fun c hc => hfound c (List.mem_append_left _ hc)
    exact ih hstep hadmits.2 fun c hc => hfound c (List.mem_append_right _ hc)

theorem IsIdle.needs (h : w.IsIdle) (p : Path) : w.pipeline.needs p = [] := by
  have hbatch : w.pipeline.batch.changes = [] := List.isEmpty_iff.1 h.batch
  rw [Pipeline.needs, Pipeline.trail, h.jobs, h.incoming, hbatch]
  rfl

end World

namespace Registry

variable {σ : Type} {R : Registry σ}

theorem Opened.sound (hR : R.Replaces) (hD : R.Drops) {s : Scanner σ} (hs : R.Opened s)
    {place : List Name} (hrooted : s.passing.Rooted place) {history : List (Moment × ScanCall)}
    (hhistory : ∀ c ∈ history, c.1.files.root.isWellNamed = true ∧ c.2.Spelled s.root)
    {files : FileTree} (hread : s.CanRead files) {found : Path → List UInt8 → Prop}
    (hfound : ∀ p bytes, contentsIn history p bytes → found p bytes) :
    (World.start files (s.after history)).Sound R found s := by
  obtain ⟨_, hstart, _⟩ := hs.passing_rooted
  obtain ⟨hrecords, hsame⟩ := (Scanner.recordsSpelled_invariant s.root).after history
    (fun c hc t hsame p hp _ _ => by
      have hspelled := Scanner.spelled_of_looksAt (hsame.rooted hrooted) (hhistory c hc).1
        (hsame.root ▸ (hhistory c hc).2) hp
      rwa [hsame.root] at hspelled) hstart
  have hfacts := ((synchronized_invariant hR hD).after history
    (fun c hc _ _ p _ bytes hfind => hfound p bytes ⟨c, hc, hfind⟩) hs.synchronized).1
  refine ⟨hsame, hread, hrecords, hfacts, fun c hc => absurd hc List.not_mem_nil, fun j hj => ?_,
    fun p => Nat.zero_le 1, fun p => List.isChain_nil, fun p => trivial⟩
  rw [List.mem_singleton.1 hj]
  exact rfl

/-- Whatever edits of files and steps of the daemon follow each other, in any order and with the
changes cut into batches in any way: whenever nothing is left to do, the records and the facts are
those of the files as they are then, which are those of a full scan of them. -/
theorem watching_converges (R : Registry σ) (hR : R.Replaces) (hD : R.Drops) {s : Scanner σ}
    (hs : R.Opened s) (history : List (Moment × ScanCall))
    (hhistory : ∀ c ∈ history, c.1.files.root.isWellNamed = true ∧ c.2.Spelled s.root)
    {files : FileTree} (hread : s.CanRead files) (moves : List Move)
    (hadmits : (World.start files (s.after history)).Admits moves)
    (hdigests : NoCollision (history ++ (World.start files (s.after history)).calls moves))
    (hidle : ((World.start files (s.after history)).run moves).IsIdle) :
    let w := (World.start files (s.after history)).run moves
    R.Mirrors w.scanner w.files ∧
      ∀ fresh now t r, R.Opened fresh → fresh.root = s.root → fresh.options = s.options →
        fresh.indexAll ⟨w.files, now⟩ false = (t, .ok r) → r.failed = 0 → ∀ p,
          w.scanner.hashes.digest? p = t.hashes.digest? p ∧
            ∀ i ∈ R.order, R.held i w.scanner.facts p = R.held i t.facts p := by
  intro w
  obtain ⟨_, _, place, hrooted⟩ := hs.passing_rooted
  let calls := history ++ (World.start files (s.after history)).calls moves
  have hstart : (World.start files (s.after history)).Sound R (contentsIn calls) s :=
    hs.sound hR hD hrooted hhistory hread
      fun p bytes ⟨c, hc, hfind⟩ => ⟨c, List.mem_append_left _ hc, hfind⟩
  have hsound : w.Sound R (contentsIn calls) s := hstart.run hR hD hrooted hadmits
    fun c hc p bytes hfind => ⟨c, List.mem_append_right _ hc, hfind⟩
  -- No work is left, so every path is recorded as it should be.
  have hsettled : ∀ p, w.Owes (contentsIn calls) s p none := by
    intro p
    have howed := hsound.owed p
    rwa [hidle.needs p] at howed
  have hmirrors : R.Mirrors w.scanner w.files := by
    refine hsound.facts.mirrors (fun p => hsound.project.due.2 (hsettled p).1) (fun p bytes h => ?_)
      hdigests
    exact (hsettled p).2 bytes (hsound.project.eligible.1 h)
  refine ⟨hmirrors, fun fresh now t r hfresh hroot hoptions hscan hfailed p => ?_⟩
  have hsame := hs.sameProject hfresh hroot hoptions
  obtain ⟨hproject, hmirrors'⟩ :=
    hfresh.mirrors hR hD (hsame.canRead hsound.readable) hscan hfailed
  refine hmirrors'.agree hmirrors ?_ ?_ p
  · rw [hproject.root, hsame.root]
    exact hsound.project.root
  · rw [hproject.options, hsame.options]
    exact hsound.project.options

/-- A manifest is deleted and written again before the daemon gets to work. Its removal is done when
the new manifest is already indexed, and undone by the job that follows. -/
def manifestMoves : List Move :=
  [.edit (.delete manifestPath), .receive, .flush,
    .edit (.write manifestPath "<manifest><meta><name>B</name></meta></manifest>".toUTF8.toList),
    .work ⟨0, 0⟩, .work ⟨1, 0⟩, .receive, .flush, .work ⟨2, 0⟩]

def manifestWorld : World (FactStore Extension) :=
  .start (projectWith "<manifest><meta><name>A</name></meta></manifest>") (appsScanner.after [])

theorem manifestWorld_calls : manifestWorld.calls manifestMoves =
    let files := projectWith "<manifest><meta><name>B</name></meta></manifest>"
    [(⟨files, ⟨0, 0⟩⟩, .indexAll false), (⟨files, ⟨1, 0⟩⟩, .removeFiles [manifestPath]),
      (⟨files, ⟨2, 0⟩⟩, .indexFiles [manifestPath])] := by
  rfl

theorem hasRoom_manifestPath {entries : List (Name × Entry)}
    (h : ∀ e, entries.lookup "manifest.xml".toList = some e → e.isFile = true) :
    FileTree.HasRoom { root := .dir [("p".toList, .dir entries)] } appsScanner.root manifestPath := by
  refine ⟨["p".toList, "manifest.xml".toList], ⟨["p".toList], ["manifest.xml".toList], rfl,
    by decide +kernel, nofun, rfl, rfl⟩, fun names e hnames he => ?_⟩
  rcases names with _ | ⟨n, _ | ⟨m, names⟩⟩
  · cases he
    rfl
  · obtain ⟨rfl, _⟩ := List.cons_prefix_cons.1 hnames
    cases he
    rfl
  · obtain ⟨rfl, hrest⟩ := List.cons_prefix_cons.1 hnames
    obtain ⟨rfl, hnil⟩ := List.cons_prefix_cons.1 hrest
    obtain rfl := List.prefix_nil.1 hnil
    rw [if_pos rfl]
    have hself : (Entry.dir entries).get? [] = some (.dir entries) := rfl
    exact h e ((Entry.get?_snoc hself _).symm.trans he)

theorem manifestWorld_admits : manifestWorld.Admits manifestMoves := by
  have hindexable : appsScanner.isIndexable manifestPath = true := by decide +kernel
  refine ⟨⟨hindexable, by decide +kernel, _, ["p".toList], ["manifest.xml".toList], rfl, rfl, rfl⟩,
    trivial, trivial, ⟨hindexable, hasRoom_manifestPath nofun, by decide +kernel⟩, fun j hj => ?_,
    fun j hj => ?_, trivial, trivial, fun j hj => ?_, trivial⟩
  · obtain rfl : Job.indexAll false = j := Option.some.inj hj
    exact ⟨{ seen := 1, indexed := 1 }, by decide +kernel, rfl⟩
  · obtain rfl : Job.remove [manifestPath] = j := Option.some.inj hj
    exact ⟨{ removed := 1 }, by decide +kernel, rfl⟩
  · obtain rfl : Job.index [manifestPath] = j := Option.some.inj hj
    exact ⟨{ seen := 1, indexed := 1 }, by decide +kernel, rfl⟩

theorem watching_converges_manifest :
    let source := "<manifest><meta><name>B</name></meta></manifest>".toUTF8.toList
    let w := manifestWorld.run manifestMoves
    w.IsIdle ∧ w.scanner.Eligible w.files manifestPath source ∧
      w.scanner.hashes.digest? manifestPath = some (Digest.sha256 source) ∧
      strictApps.held () w.scanner.facts manifestPath =
        strictApps.extract () manifestPath (Text.decodeLossy source) := by
  intro source w
  have hidle : w.IsIdle := ⟨rfl, rfl, rfl⟩
  have hread : appsScanner.CanRead
      (projectWith "<manifest><meta><name>A</name></meta></manifest>") :=
    ⟨by decide +kernel, canOpen_projectWith _, nofun⟩
  have hdigests : NoCollision ([] ++ manifestWorld.calls manifestMoves) := by
    have hcontent : ∀ p bytes, contentsIn (manifestWorld.calls manifestMoves) p bytes →
        bytes = source := by
      rintro p bytes ⟨c, hc, hfind⟩
      rw [manifestWorld_calls] at hc
      simp only [List.mem_cons, List.not_mem_nil, or_false] at hc
      rcases hc with rfl | rfl | rfl <;> exact content_of_find_projectWith hfind
    intro p bytes bytes' hbytes hbytes' _
    rw [hcontent p bytes hbytes, hcontent p bytes' hbytes']
  obtain ⟨hmirrors, _⟩ := watching_converges strictApps strictApps_replaces
    FactStore.registry_drops appsScanner_opened [] (fun c hc => absurd hc List.not_mem_nil) hread
    manifestMoves manifestWorld_admits hdigests hidle
  have hroot : w.scanner.root = appsScanner.root := by decide +kernel
  have heligible : w.scanner.Eligible w.files manifestPath source :=
    ⟨⟨["p".toList], ["manifest.xml".toList], by rw [hroot]; rfl, rfl, by rw [hroot]; rfl⟩,
      by decide +kernel, by decide +kernel⟩
  have haccepts : Extensions.accepts manifestPath = true := by decide +kernel
  exact ⟨hidle, heligible, (hmirrors.records manifestPath _).2 ⟨source, heligible, rfl⟩,
    hmirrors.held () (List.mem_singleton_self ()) manifestPath source heligible haccepts⟩

end Registry
end ProjectIndex
