import ProjectIndex.Proofs.Scan.Incremental
import ProjectIndex.Proofs.Scan.Sheets

/-!
A project kept up by full scans without failures. A file is handed over by the first scan that finds
it with the content it has, and no scan after that hands it over again. So its rows are those that
were made of this content and of the tree of that scan.
-/
namespace ProjectIndex.Scanner

open FileTree

variable {σ : Type}

/-- Full scans without failures, the last one first. -/
inductive Scans (s : Scanner σ) : List Moment → Scanner σ → Prop
  | nil : Scans s [] s
  | cons {m ms t u r} (h : Scans s ms t) (hscan : t.indexAll m false = (u, .ok r))
    (hfailed : r.failed = 0) : Scans s (m :: ms) u

/-- A scan comes by a file with this content and finds it neither unreadable nor too large. -/
structure Meets (s : Scanner σ) (files : FileTree) (p : Path) (bytes : List UInt8) : Prop where
  mem : p ∈ s.walk files
  find : files.find p = .ok (.file bytes)
  small : bytes.length ≤ s.options.maxFileSize

/-- The tree in which a file was first found with the content that it has had ever since, or at last
if its path is no text. The scans are given with the last one first. -/
inductive TakenUp (s : Scanner σ) (p : Path) (bytes : List UInt8) : List Moment → FileTree → Prop
  | first {m ms} (h : s.Eligible m.files p bytes)
    (hnew : ∀ m' ∈ ms.head?, m.files.isText p = true → ¬ s.Eligible m'.files p bytes) :
    TakenUp s p bytes (m :: ms) m.files
  | still {m ms files} (h : s.Eligible m.files p bytes) (htext : m.files.isText p = true)
    (hold : TakenUp s p bytes ms files) : TakenUp s p bytes (m :: ms) files

variable {V : Shelf σ} {W : List (Scribe V)} {scribe : V.Slot → Scribe V}
  {s t u : Scanner σ} {place : List Name} {files : FileTree} {p : Path} {bytes : List UInt8}
  {m : Moment} {ms : List Moment} {r : ScanReport} {k : V.Slot}

theorem Scans.eq_after (h : s.Scans ms t) :
    t = s.after (ms.reverse.map fun m => (m, .indexAll false)) := by
  induction h with
  | nil => rfl
  | cons h hscan _ ih =>
    rw [List.reverse_cons, List.map_append, after, List.foldl_append]
    refine (congrArg Prod.fst hscan).symm.trans ?_
    rw [ih]
    rfl

theorem TakenUp.eligible (h : s.TakenUp p bytes ms files) :
    ∃ m ∈ ms.head?, s.Eligible m.files p bytes := by
  cases h with
  | first h _ => exact ⟨_, rfl, h⟩
  | still h _ _ => exact ⟨_, rfl, h⟩

theorem TakenUp.mem (h : s.TakenUp p bytes ms files) : ∃ m ∈ ms, files = m.files := by
  induction h with
  | first _ _ => exact ⟨_, List.mem_cons_self .., rfl⟩
  | still _ _ _ ih =>
    obtain ⟨m, hm, hfiles⟩ := ih
    exact ⟨m, List.mem_cons_of_mem _ hm, hfiles⟩

theorem exists_takenUp (h : s.Eligible m.files p bytes) :
    ∃ files, s.TakenUp p bytes (m :: ms) files := by
  induction ms generalizing m with
  | nil => exact ⟨_, .first h nofun⟩
  | cons m' ms ih =>
    by_cases hbefore : m.files.isText p = true ∧ s.Eligible m'.files p bytes
    · obtain ⟨files, hfiles⟩ := ih hbefore.2
      exact ⟨files, .still h hbefore.1 hfiles⟩
    · refine ⟨_, .first h fun m'' hm'' htext hold => ?_⟩
      cases hm''
      exact hbefore ⟨htext, hold⟩

theorem SameProject.meets (h : s.SameProject t) :
    t.Meets files p bytes ↔ s.Meets files p bytes := by
  constructor
  · rintro ⟨hmem, hfind, hsmall⟩
    exact ⟨h.walk files ▸ hmem, hfind, h.options ▸ hsmall⟩
  · rintro ⟨hmem, hfind, hsmall⟩
    exact ⟨h.walk files ▸ hmem, hfind, h.options ▸ hsmall⟩

theorem Meets.eligible (h : s.Meets files p bytes) (hrooted : s.Rooted place)
    (hnamed : files.root.isWellNamed = true) : s.Eligible files p bytes := by
  obtain ⟨found, hholds, hindexable⟩ := (hrooted.mem_walk hnamed).1 h.mem
  have hheld := hholds
  obtain ⟨start, below, hstart, hget, rfl⟩ := hheld
  have hplain : ∀ n ∈ below, Plain n := fun n hn =>
    (Entry.plain_of_get? hnamed hget).1 n (List.mem_append_right _ hn)
  have hfind := h.find
  rw [hrooted.root] at hstart hfind
  cases find_descend hrooted.plain hplain hstart hget hfind
  exact ⟨hholds, hindexable, h.small⟩

theorem Meets.find_of_holdsFile {files' : FileTree} {bytes' : List UInt8}
    (h : s.Meets files p bytes) (hrooted : s.Rooted place)
    (hnamed : files.root.isWellNamed = true) (hnamed' : files'.root.isWellNamed = true)
    (hholds : files'.HoldsFile s.root p bytes') : files'.find p = .ok (.file bytes') := by
  obtain ⟨start', below', hstart', hget', hpath⟩ := hholds
  obtain ⟨⟨start, below, hstart, hget, rfl⟩, _⟩ := h.eligible hrooted hnamed
  have hplain : ∀ n ∈ below, Plain n := fun n hn =>
    (Entry.plain_of_get? hnamed hget).1 n (List.mem_append_right _ hn)
  have hplain' : ∀ n ∈ below', Plain n := fun n hn =>
    (Entry.plain_of_get? hnamed' hget').1 n (List.mem_append_right _ hn)
  have hfind := h.find
  rw [hrooted.root] at hstart hstart' hfind hpath ⊢
  cases descend_inj hrooted.plain hplain hplain' hpath
  exact find_descend_of_find hrooted.plain hplain hstart hget hstart' hget' hfind

theorem Kept.fullScan (hkept : s.Kept W) (hnodup : (s.walk m.files).Nodup)
    (hscan : s.indexAll m false = (u, .ok r)) :
    let l := (s.ledger V).strike W (s.gone m.files)
    u.ledger V = l.scan s.options.maxFileSize m.files W (s.walk m.files) ∧
      r.failed = (l.tally W s.options.maxFileSize m.files (s.walk m.files)).failed := by
  intro l
  obtain ⟨hemploys, hstruck⟩ := hkept.employs.trimmed ⟨m.files, .scanning true⟩
  have hoptions := (s.sameProject_trimmed ⟨m.files, .scanning true⟩).options
  have hledger := (hemploys.afterFiles ⟨m.files, .scanning true⟩ m.now hnodup).2
  unfold Scanner.indexAll at hscan
  split at hscan
  · cases hscan
  · simp only [Bool.false_eq_true, if_false] at hscan
    rw [hkept.employs.synchronize_eq, hemploys.process _ _ hnodup] at hscan
    cases hscan
    rw [hledger, hstruck, hoptions]
    exact ⟨rfl, Nat.zero_add _⟩

theorem exists_indexAll (hopen : s.hashes.closed = false) (hclosed : s.closed = false) (m : Moment) :
    ∃ u r, s.indexAll m false = (u, .ok r) := by
  obtain ⟨r, hsync, _⟩ := synchronize_eq hopen ⟨m.files, .scanning true⟩ m.now
  simp only [indexAll, hclosed, Bool.false_eq_true, if_false]
  exact ⟨_, r, hsync⟩

structure Fresh (W : List (Scribe V)) (s : Scanner σ) : Prop where
  employs : s.Employs W
  rooted : ∃ place, s.Rooted place
  records : s.hashes.files = []
  rows : ∀ k, (V.store k s.facts).rows = []

theorem Fresh.digest? (h : s.Fresh W) (p : Path) : s.hashes.digest? p = none := by
  rw [HashTable.digest?, HashTable.find?, h.records]
  rfl

theorem Fresh.kept (h : s.Fresh W) : s.Kept W := by
  refine ⟨h.employs, fun k _ r hr => ?_⟩
  have hr' : r ∈ (V.store k s.facts).rows := hr
  rw [h.rows k] at hr'
  exact absurd hr' List.not_mem_nil

theorem Fresh.recordsSpelled (h : s.Fresh W) : s.RecordsSpelled s.root := by
  refine ⟨h.employs.isOpen, fun p f hf => ?_⟩
  have hnone := h.digest? p
  rw [HashTable.digest?, hf] at hnone
  cases hnone

theorem Fresh.rowsOf (h : s.Fresh W) (k : V.Slot) (p : Path) : (s.ledger V).rowsOf k p = [] := by
  have hrows : ((s.ledger V).store k).rows = [] := h.rows k
  rw [Ledger.rowsOf, hrows]
  rfl

section Step

variable (hkept : s.Kept W) (hrooted : s.Rooted place)
  (hnamed : m.files.root.isWellNamed = true) (hscan : s.indexAll m false = (u, .ok r))

theorem Rooted.nodup_walk (hrooted : s.Rooted place)
    (hnamed : files.root.isWellNamed = true) : (s.walk files).Nodup := by
  unfold walk
  rw [hrooted.root]
  exact FileTree.nodup_walk hnamed hrooted.plain s.skipNames s.options.followLinks

/-- Whether a full scan finds a file with this content unchanged. -/
def Knows (s : Scanner σ) (files : FileTree) (p : Path) (bytes : List UInt8) : Prop :=
  files.isText p = true ∧ s.hashes.digest? p = some (Digest.sha256 bytes)

theorem digest?_strike_gone (hp : p ∈ s.walk files) :
    ((s.ledger V).strike W (s.gone files)).digest? p = some (Digest.sha256 bytes) ↔
      s.Knows files p bytes := by
  rw [Ledger.digest?_strike, digest?_ledger, Knows]
  by_cases htext : files.isText p = true
  · rw [if_neg (notMem_gone hp htext), and_iff_right htext]
  · refine iff_of_false ?_ fun h => htext h.1
    split
    · exact nofun
    · next hstays =>
      intro hdigest
      obtain ⟨f, hf, _⟩ := Option.map_eq_some_iff.1 hdigest
      exact hstays ((mem_gone_iff_of_mem_walk hp).2 ⟨by rw [hf]; rfl, Bool.eq_false_iff.2 htext⟩)

theorem Meets.due?_of_knows (h : s.Meets files p bytes) (hknown : s.Knows files p bytes) :
    ((s.ledger V).strike W (s.gone files)).due? s.options.maxFileSize files p = none := by
  unfold Ledger.due?
  simp only [h.find, (digest?_strike_gone h.mem).2 hknown, if_true, ite_self]

theorem Meets.due?_of_not_knows (h : s.Meets files p bytes) (hnew : ¬ s.Knows files p bytes) :
    ((s.ledger V).strike W (s.gone files)).due? s.options.maxFileSize files p = some bytes := by
  unfold Ledger.due?
  simp only [h.find, if_neg (Nat.not_lt.2 h.small),
    if_neg fun hdigest => hnew ((digest?_strike_gone h.mem).1 hdigest)]

theorem due?_of_not_meets (h : ∀ bytes, ¬ s.Meets files p bytes) (hp : p ∈ s.walk files)
    (l : Ledger V) : l.due? s.options.maxFileSize files p = none := by
  by_contra hdue
  obtain ⟨bytes, hbytes⟩ := Option.ne_none_iff_exists'.1 hdue
  obtain ⟨hfind, hsmall, _⟩ := Ledger.find_of_due? hbytes
  exact h bytes ⟨hp, hfind, hsmall⟩

include hkept hrooted hnamed hscan

theorem rowsOf_of_changed (hw : Scribe.Sole W (scribe k) k) (h : s.Meets m.files p bytes)
    (hchanged : ¬ s.Knows m.files p bytes) :
    (u.ledger V).rowsOf k p = (scribe k).sheet m.files p (Text.decodeLossy bytes) k
      (if p ∈ s.gone m.files then [] else (s.ledger V).rowsOf k p) ∧
      (r.failed = 0 → Scribe.missCount W m.files p (Text.decodeLossy bytes) = 0) := by
  have hnodup := hrooted.nodup_walk hnamed
  obtain ⟨hledger, hfailed⟩ := hkept.fullScan hnodup hscan
  have hdue : ((s.ledger V).strike W (s.gone m.files)).due? s.options.maxFileSize m.files p =
      some bytes := h.due?_of_not_knows hchanged
  refine ⟨?_, fun hzero => Ledger.missCount_of_tally (hfailed.symm.trans hzero) h.mem hdue⟩
  rw [hledger, Ledger.rowsOf_scan_of_due hw hnodup h.mem hdue, Ledger.rowsOf_strike hw]

theorem rowsOf_of_unchanged (hw : Scribe.Sole W (scribe k) k) (h : s.Meets m.files p bytes)
    (hknown : s.Knows m.files p bytes) :
    (u.ledger V).rowsOf k p = (s.ledger V).rowsOf k p := by
  obtain ⟨hledger, _⟩ := hkept.fullScan (hrooted.nodup_walk hnamed) hscan
  have hstays : ∀ l : Ledger V, l.leaves s.options.maxFileSize m.files p = false := fun l => by
    unfold Ledger.leaves
    simp [h.find, Nat.not_lt.2 h.small]
  rw [hledger, Ledger.rowsOf_scan_of_rest hw fun _ => h.due?_of_knows hknown,
    if_neg (by simp [Ledger.exits, hstays]), Ledger.rowsOf_strike hw,
    if_neg (notMem_gone h.mem hknown.1)]

theorem rowsOf_of_not_meets (hw : Scribe.Sole W (scribe k) k)
    (h : ∀ bytes, ¬ s.Meets m.files p bytes) (hnone : (s.ledger V).rowsOf k p = []) :
    (u.ledger V).rowsOf k p = [] := by
  obtain ⟨hledger, _⟩ := hkept.fullScan (hrooted.nodup_walk hnamed) hscan
  rw [hledger, Ledger.rowsOf_scan_of_rest hw fun hp => due?_of_not_meets h hp _,
    Ledger.rowsOf_strike hw, hnone, ite_self, ite_self]

/-- After a scan without failures exactly the files it met are recorded, if a file that was recorded
can still be opened. -/
theorem digest?_of_scan (hrecords : s.RecordsSpelled s.root)
    (hreadable : ∀ p ∈ s.walk m.files, s.hashes.digest? p ≠ none →
      ∃ bytes, m.files.find p = .ok (.file bytes))
    (hfailed : r.failed = 0) (p : Path) (hash : String) :
    u.hashes.digest? p = some hash ↔
      ∃ bytes, s.Meets m.files p bytes ∧ hash = Digest.sha256 bytes := by
  obtain ⟨hledger, _⟩ := hkept.fullScan (hrooted.nodup_walk hnamed) hscan
  obtain ⟨rfl, hsum⟩ := indexAll_eq_ok hkept.employs.isOpen hscan
  have hzero := (Nat.add_eq_zero_iff.1 (hsum.symm.trans hfailed)).2
  obtain ⟨hout, hin⟩ := digest?_afterFiles
    ((s.hashes_closed_trimmed _).trans hkept.employs.isOpen) hzero p
  by_cases hp : p ∈ s.walk m.files
  · by_cases hfile : ∃ bytes, m.files.find p = .ok (.file bytes)
    · obtain ⟨bytes, hfind⟩ := hfile
      have hsame := s.sameProject_trimmed ⟨m.files, .scanning true⟩
      rw [hin bytes hfind hp, hsame.dueDigest?, dueDigest?_eq_some]
      constructor
      · rintro ⟨hsmall, rfl⟩
        exact ⟨bytes, ⟨hp, hfind, hsmall⟩, rfl⟩
      · rintro ⟨bytes', ⟨_, hfind', hsmall⟩, rfl⟩
        rw [hfind] at hfind'
        cases hfind'
        exact ⟨hsmall, rfl⟩
    · -- What cannot be opened was not recorded before the scan either.
      have hnone : s.hashes.digest? p = none := by
        by_contra hrecorded
        exact hfile (hreadable p hp hrecorded)
      have hnever : ∀ bytes, ¬ s.Meets m.files p bytes := fun bytes h => hfile ⟨bytes, h.find⟩
      rw [← digest?_ledger (V := V), hledger,
        Ledger.digest?_scan_of_rest fun hp => due?_of_not_meets hnever hp _,
        Ledger.digest?_strike, digest?_ledger, hnone, ite_self, ite_self]
      exact iff_of_false nofun fun ⟨bytes, h, _⟩ => hnever bytes h
  · rw [hout hp, digest?_trimmed hrooted hrecords hnamed hp]
    exact iff_of_false nofun fun ⟨bytes, h, _⟩ => hp h.mem

end Step

structure Staffed (W : List (Scribe V)) (scribe : V.Slot → Scribe V) : Prop where
  sole : ∀ k, Scribe.Sole W (scribe k) k
  certain : ∀ k, (scribe k).Certain

theorem Fresh.rowsOf_indexAll (hW : Staffed W scribe) (hfresh : s.Fresh W)
    (hnamed : m.files.root.isWellNamed = true) (hscan : s.indexAll m false = (u, .ok r))
    (k : V.Slot) (p : Path) :
    (∀ bytes, s.Meets m.files p bytes →
      (u.ledger V).rowsOf k p = (scribe k).sheet m.files p (Text.decodeLossy bytes) k []) ∧
      ((∀ bytes, ¬ s.Meets m.files p bytes) → (u.ledger V).rowsOf k p = []) := by
  obtain ⟨place, hrooted⟩ := hfresh.rooted
  refine ⟨fun bytes h => ?_, fun h => ?_⟩
  · have hchanged : ¬ s.Knows m.files p bytes := by
      rw [Knows, hfresh.digest?]
      exact nofun
    rw [(rowsOf_of_changed hfresh.kept hrooted hnamed hscan (hW.sole k) h hchanged).1,
      hfresh.rowsOf, ite_self]
  · exact rowsOf_of_not_meets hfresh.kept hrooted hnamed hscan (hW.sole k) h (hfresh.rowsOf k p)

/-- A scanner after some full scans: what is recorded is what the last one met, and where a store
never gets anything of a file it has nothing of it. -/
structure KeptUp (W : List (Scribe V)) (scribe : V.Slot → Scribe V) (s : Scanner σ)
    (ms : List Moment) (t : Scanner σ) : Prop where
  kept : t.Kept W
  sameProject : s.SameProject t
  spelled : t.RecordsSpelled s.root
  records : ∀ p hash, t.hashes.digest? p = some hash ↔
    ∃ m ∈ ms.head?, ∃ bytes, s.Meets m.files p bytes ∧ hash = Digest.sha256 bytes
  silent : ∀ k p, (scribe k).Silent p k → (t.ledger V).rowsOf k p = []

section Run

variable (hW : Staffed W scribe) (hclears : ∀ w ∈ W, w.Clears) (hfresh : s.Fresh W)

include hW hclears hfresh

theorem Scans.keptUp (h : s.Scans ms t) (hnamed : ∀ m ∈ ms, m.files.root.isWellNamed = true) :
    KeptUp W scribe s ms t := by
  obtain ⟨place, hplace⟩ := hfresh.rooted
  induction h with
  | nil =>
    refine ⟨hfresh.kept, ⟨rfl, rfl, rfl, rfl⟩, hfresh.recordsSpelled, fun p hash => ?_,
      fun k p _ => hfresh.rowsOf k p⟩
    rw [hfresh.digest?]
    exact iff_of_false nofun nofun
  | @cons m ms t u r h hscan hfailed ih =>
    obtain ⟨hnow, hbefore⟩ := List.forall_mem_cons.1 hnamed
    obtain ⟨hkept, hsame, hspelled, hrecords, hsilent⟩ := ih hbefore
    have hrooted : t.Rooted place := hplace.sameProject hsame
    have hu : (t.indexAll m false).1 = u := congrArg Prod.fst hscan
    obtain ⟨hkept', hsame'⟩ := ((kept_invariant hclears).withProject s).indexAll m false
      (fun _ _ _ _ => trivial) ⟨hkept, hsame⟩
    have hspelled' := (recordsSpelled_invariant s.root).indexAll m false (fun p hp _ _ => by
      obtain ⟨_, hholds, _⟩ := (hrooted.mem_walk hnow).1 hp
      exact hsame.root ▸ hholds.spelled hnow) hspelled
    rw [hu] at hkept' hsame' hspelled'
    refine ⟨hkept', hsame', hspelled', fun p hash => ?_, fun k p hp => ?_⟩
    · have hdigest := digest?_of_scan hkept hrooted hnow hscan (hsame.root ▸ hspelled)
        (fun q hq hrecorded => ?_) hfailed p hash
      · rw [hdigest]
        simp only [hsame.meets, List.head?_cons, Option.mem_some_iff, exists_eq_left']
      · -- A path is recorded because the scan before could open it, and so it can be opened now.
        obtain ⟨hash', hhash⟩ := Option.ne_none_iff_exists'.1 hrecorded
        obtain ⟨m', hm', _, hmet, _⟩ := (hrecords q hash').1 hhash
        obtain ⟨bytes', hholds, _⟩ := (hrooted.mem_walk hnow).1 hq
        have hnamed' := hbefore m' (List.mem_of_mem_head? hm')
        exact ⟨bytes', hmet.find_of_holdsFile hplace hnamed' hnow (hsame.root ▸ hholds)⟩
    · by_cases hmet : ∃ bytes, t.Meets m.files p bytes
      · obtain ⟨bytes, hmet⟩ := hmet
        by_cases hknown : t.Knows m.files p bytes
        · rw [rowsOf_of_unchanged hkept hrooted hnow hscan (hW.sole k) hmet hknown]
          exact hsilent k p hp
        · rw [(rowsOf_of_changed hkept hrooted hnow hscan (hW.sole k) hmet hknown).1,
            hsilent k p hp, ite_self, hp.sheet_nil]
      · exact rowsOf_of_not_meets hkept hrooted hnow hscan (hW.sole k) (not_exists.1 hmet)
          (hsilent k p hp)

/-- The rows of a file are those that were made of its content and of the tree in which it was first
found with it. -/
theorem Scans.rowsOf_of_takenUp (h : s.Scans ms t)
    (hnamed : ∀ m ∈ ms, m.files.root.isWellNamed = true)
    (hdigests : Registry.NoCollision (ms.map fun m => (m, .indexAll false)))
    {seen : FileTree} {found : List UInt8} (hseen : seen.root.isWellNamed = true)
    (hmet : s.Meets seen p found) (htaken : s.TakenUp p bytes ms files) (k : V.Slot) :
    (t.ledger V).rowsOf k p = (scribe k).sheet files p (Text.decodeLossy bytes) k [] := by
  obtain ⟨place, hplace⟩ := hfresh.rooted
  have hmeets : ∀ {files : FileTree} {bytes : List UInt8}, files.root.isWellNamed = true →
      s.Eligible files p bytes → s.Meets files p bytes := by
    rintro files bytes hfiles ⟨hholds, hindexable, hsmall⟩
    exact ⟨(hplace.mem_walk hfiles).2 ⟨bytes, hholds, hindexable⟩,
      hmet.find_of_holdsFile hplace hseen hfiles hholds, hsmall⟩
  induction h with
  | nil => cases htaken
  | @cons m ms t u r h hscan hfailed ih =>
    obtain ⟨hnow, hbefore⟩ := List.forall_mem_cons.1 hnamed
    obtain ⟨hkept, hsame, _, hrecords, hsilent⟩ := h.keptUp hW hclears hfresh hbefore
    have hrooted : t.Rooted place := hplace.sameProject hsame
    cases htaken with
    | first heligible hnew =>
      have hmet' := hmeets hnow heligible
      -- The scan before recorded another content or none, so the file is handed over now.
      have hchanged : ¬ t.Knows m.files p bytes := by
        rintro ⟨htext, hknown⟩
        obtain ⟨m', hm', bytes', hmet'', hhash⟩ := (hrecords p _).1 hknown
        have hmem' := List.mem_of_mem_head? hm'
        have hsame' : bytes = bytes' := hdigests p bytes bytes'
          ⟨_, List.mem_map_of_mem (List.mem_cons_self ..), hmet'.find⟩
          ⟨_, List.mem_map_of_mem (List.mem_cons_of_mem _ hmem'), hmet''.find⟩ hhash
        exact hnew m' hm' htext (hsame' ▸ hmet''.eligible hplace (hbefore m' hmem'))
      obtain ⟨hrows, hcount⟩ := rowsOf_of_changed hkept hrooted hnow hscan (hW.sole k)
        (hsame.meets.2 hmet') hchanged
      rw [hrows]
      exact (hW.certain k).sheet_eq (hW.sole k).owns
        (Scribe.misses_of_missCount (hcount hfailed) (hW.sole k).mem)
        fun hp => by rw [hsilent k p hp, ite_self]
    | still heligible htext hold =>
      obtain ⟨m', hm', heligible'⟩ := hold.eligible
      have hknown : t.hashes.digest? p = some (Digest.sha256 bytes) :=
        (hrecords p _).2 ⟨m', hm', bytes, hmeets (hbefore m' (List.mem_of_mem_head? hm'))
          heligible', rfl⟩
      rw [rowsOf_of_unchanged hkept hrooted hnow hscan (hW.sole k)
        (hsame.meets.2 (hmeets hnow heligible)) ⟨htext, hknown⟩]
      refine ih hbefore (fun q b b' hb hb' => hdigests q b b' ?_ ?_) hold
      · obtain ⟨c, hc, hfind⟩ := hb
        exact ⟨c, List.mem_cons_of_mem _ hc, hfind⟩
      · obtain ⟨c, hc, hfind⟩ := hb'
        exact ⟨c, List.mem_cons_of_mem _ hc, hfind⟩

theorem Scans.rowsOf_of_not_meets (h : s.Scans (m :: ms) t)
    (hnamed : ∀ m' ∈ m :: ms, m'.files.root.isWellNamed = true)
    (hnever : ∀ bytes, ¬ s.Meets m.files p bytes) (k : V.Slot) :
    (t.ledger V).rowsOf k p = [] := by
  obtain ⟨hkept, _, _, hrecords, _⟩ := h.keptUp hW hclears hfresh hnamed
  refine Ledger.rowsOf_of_unrecorded hkept.covered (hW.sole k) ?_
  rw [digest?_ledger]
  by_contra hrecorded
  obtain ⟨hash, hhash⟩ := Option.ne_none_iff_exists'.1 hrecorded
  obtain ⟨m', hm', bytes, hmet, _⟩ := (hrecords p hash).1 hhash
  cases hm'
  exact hnever bytes hmet

end Run

end ProjectIndex.Scanner
