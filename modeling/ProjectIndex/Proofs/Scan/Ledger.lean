import ProjectIndex.Proofs.Scan.Recorded
import ProjectIndex.Proofs.Scan.Shelf

/-!
A scanner with scribes keeps a ledger: its records without their times, and its stores. To settle a
file is to enter it, to discard files is to strike them. What is done to one file can change places
with what is done to another, so a scan of distinct files comes down to its entries, in order, and
one strike behind them, wherever its chunks end.
-/
namespace ProjectIndex

variable {σ : Type} {V : Shelf σ}

@[ext]
structure Ledger (V : Shelf σ) where
  records : List (Path × String)
  store : (k : V.Slot) → FactStore (V.Fact k)

theorem Scribe.writeAll_without {p : Path} {ps : List Path} (hp : p ∉ ps) (W : List (Scribe V))
    (files : FileTree) (src : Source) (k : V.Slot) (st : FactStore (V.Fact k)) :
    (writeAll W files p src k st).without ps = writeAll W files p src k (st.without ps) := by
  unfold writeAll
  generalize W.filter (fun w => w.indexer.accepts p) = A
  induction A generalizing st with
  | nil => rfl
  | cons w A ih => rw [List.foldl_cons, ih, w.without_write hp, List.foldl_cons]

theorem Scribe.dropAll_writeAll {p : Path} {ps : List Path} (hp : p ∉ ps) (W : List (Scribe V))
    (files : FileTree) (src : Source) (k : V.Slot) (st : FactStore (V.Fact k)) :
    dropAll W ps k (writeAll W files p src k st) =
      writeAll W files p src k (dropAll W ps k st) := by
  unfold dropAll
  split
  · exact writeAll_without hp W files src k st
  · rfl

theorem Scribe.file_of_mem_writeAll {W : List (Scribe V)} {files : FileTree} {p : Path}
    {src : Source} {k : V.Slot} {st : FactStore (V.Fact k)} {r : Row (V.Fact k)}
    (h : r ∈ (writeAll W files p src k st).rows) : r.file = p ∨ r ∈ st.rows := by
  unfold writeAll at h
  generalize W.filter (fun w => w.indexer.accepts p) = A at h
  induction A generalizing st with
  | nil => exact .inr h
  | cons w A ih =>
    rcases ih h with hfile | hmem
    · exact .inl hfile
    · exact file_of_mem_write hmem

namespace Ledger

def note (records : List (Path × String)) (f : Path × String) : List (Path × String) :=
  if records.any fun g => g.1 == f.1 then records.map fun g => if g.1 == f.1 then f else g
  else records ++ [f]

theorem mem_note {records : List (Path × String)} {f : Path × String} {q : Path} :
    q ∈ (note records f).map Prod.fst ↔ q = f.1 ∨ q ∈ records.map Prod.fst := by
  unfold note
  split
  · next hany =>
    have hpaths : (records.map fun g => if g.1 == f.1 then f else g).map Prod.fst =
        records.map Prod.fst := by
      rw [List.map_map]
      apply List.map_congr_left
      intro g _
      by_cases hg : g.1 = f.1 <;> simp [hg]
    have hmem : f.1 ∈ records.map Prod.fst := by
      obtain ⟨g, hg, hgf⟩ := List.any_eq_true.1 hany
      exact List.mem_map.2 ⟨g, hg, by simpa using hgf⟩
    rw [hpaths]
    exact ⟨.inr, fun h => h.elim (fun hq => hq ▸ hmem) id⟩
  · rw [List.map_append, List.mem_append, List.map_singleton, List.mem_singleton, or_comm]

theorem find?_note {records : List (Path × String)} {f : Path × String} {q : Path}
    (hq : q ≠ f.1) :
    (note records f).find? (fun g => g.1 == q) = records.find? fun g => g.1 == q := by
  unfold note
  split
  · have hcomp : ((fun g : Path × String => g.1 == q) ∘ fun g => if g.1 == f.1 then f else g) =
        fun g => g.1 == q := by
      funext g
      by_cases hg : g.1 = f.1 <;> simp [hg]
    rw [List.find?_map, hcomp]
    cases hfind : records.find? fun g => g.1 == q with
    | none => rfl
    | some g =>
      have hg : g.1 = q := by simpa using List.find?_some hfind
      simp [hg, hq]
  · rw [List.find?_append, List.find?_singleton, if_neg (by simpa using Ne.symm hq),
      Option.or_none]

theorem filter_note {records : List (Path × String)} {f : Path × String} {ps : List Path}
    (hf : f.1 ∉ ps) :
    (note records f).filter (fun g => !ps.contains g.1) =
      note (records.filter fun g => !ps.contains g.1) f := by
  have hany : (records.filter fun g => !ps.contains g.1).any (fun g => g.1 == f.1) =
      records.any fun g => g.1 == f.1 := by
    rw [List.any_filter]
    congr 1
    funext g
    by_cases hg : g.1 = f.1 <;> simp [hg, hf]
  unfold note
  rw [hany]
  split
  · rw [List.filter_map]
    congr 1
    apply List.filter_congr
    intro g _
    by_cases hg : g.1 = f.1 <;> simp [hg, hf]
  · simp [hf]

def digest? (l : Ledger V) (p : Path) : Option String :=
  (l.records.find? fun f => f.1 == p).map Prod.snd

theorem isSome_digest? {l : Ledger V} {p : Path} :
    (l.digest? p).isSome = true ↔ p ∈ l.records.map Prod.fst := by
  rw [digest?, Option.isSome_map, List.find?_isSome, List.mem_map]
  simp only [beq_iff_eq]

def enter (W : List (Scribe V)) (files : FileTree) (l : Ledger V) (file : Path × List UInt8) :
    Ledger V where
  records := note l.records (file.1,
    if Scribe.missCount W files file.1 (Text.decodeLossy file.2) = 0 then Digest.sha256 file.2
    else retryHash)
  store k := Scribe.writeAll W files file.1 (Text.decodeLossy file.2) k (l.store k)

def strike (W : List (Scribe V)) (l : Ledger V) (ps : List Path) : Ledger V where
  records := l.records.filter fun f => !ps.contains f.1
  store k := Scribe.dropAll W ps k (l.store k)

variable {W : List (Scribe V)} {files : FileTree}

theorem digest?_enter {l : Ledger V} {file : Path × List UInt8} {q : Path} (hq : q ≠ file.1) :
    (l.enter W files file).digest? q = l.digest? q := by
  unfold digest? enter
  rw [find?_note hq]

theorem digest?_strike (l : Ledger V) (ps : List Path) (q : Path) :
    (l.strike W ps).digest? q = if q ∈ ps then none else l.digest? q := by
  unfold digest? strike
  rw [List.find?_filter]
  split
  · next hq =>
    rw [Option.map_eq_none_iff, List.find?_eq_none]
    intro f _ hf
    have hpath : f.1 = q := by simp_all
    simp [hpath, hq] at hf
  · next hq =>
    congr 2
    funext f
    by_cases hf : f.1 = q <;> simp [hf, hq]

theorem strike_nil (l : Ledger V) : l.strike W [] = l := by
  ext1
  · simp [strike]
  · funext k
    simp only [strike, Scribe.dropAll]
    split
    · exact FactStore.without_nil _
    · rfl

theorem strike_strike (l : Ledger V) (ps qs : List Path) :
    (l.strike W ps).strike W qs = l.strike W (ps ++ qs) := by
  ext1
  · simp only [strike]
    rw [List.filter_filter]
    apply List.filter_congr
    intro f _
    simp [Bool.and_comm]
  · funext k
    simp only [strike, Scribe.dropAll]
    split
    · exact FactStore.without_without _ ps qs
    · rfl

theorem strike_enter {file : Path × List UInt8} {ps : List Path} (hfile : file.1 ∉ ps)
    (l : Ledger V) : (l.enter W files file).strike W ps = (l.strike W ps).enter W files file := by
  ext1
  · exact filter_note hfile
  · funext k
    exact Scribe.dropAll_writeAll hfile W files _ k _

theorem strike_foldl_enter {fs : List (Path × List UInt8)} {ps : List Path}
    (h : ∀ f ∈ fs, f.1 ∉ ps) (l : Ledger V) :
    (fs.foldl (enter W files) l).strike W ps = fs.foldl (enter W files) (l.strike W ps) := by
  induction fs generalizing l with
  | nil => rfl
  | cons f fs ih =>
    rw [List.foldl_cons, ih (fun g hg => h g (List.mem_cons_of_mem _ hg)),
      strike_enter (h f (List.mem_cons_self ..)), List.foldl_cons]

theorem digest?_foldl_enter {fs : List (Path × List UInt8)} {q : Path} (h : ∀ f ∈ fs, q ≠ f.1)
    (l : Ledger V) : (fs.foldl (enter W files) l).digest? q = l.digest? q := by
  induction fs generalizing l with
  | nil => rfl
  | cons f fs ih =>
    rw [List.foldl_cons, ih (fun g hg => h g (List.mem_cons_of_mem _ hg)),
      digest?_enter (h f (List.mem_cons_self ..))]

/-- Every file that owns a row of a scribe's store has a record. -/
def Covered (W : List (Scribe V)) (l : Ledger V) : Prop :=
  ∀ k, (W.any fun w => w.owns k) = true → ∀ r ∈ (l.store k).rows, r.file ∈ l.records.map Prod.fst

theorem Covered.enter {l : Ledger V} (h : l.Covered W) (file : Path × List UInt8) :
    (l.enter W files file).Covered W := by
  intro k hk r hr
  rcases Scribe.file_of_mem_writeAll hr with hfile | hmem
  · exact mem_note.2 (.inl hfile)
  · exact mem_note.2 (.inr (h k hk r hmem))

theorem Covered.strike {l : Ledger V} (h : l.Covered W) (ps : List Path) :
    (l.strike W ps).Covered W := by
  intro k hk r hr
  simp only [Ledger.strike, Scribe.dropAll, if_pos hk] at hr
  obtain ⟨hmem, hstays⟩ := List.mem_filter.1 hr
  obtain ⟨f, hf, hpath⟩ := List.mem_map.1 (h k hk r hmem)
  exact List.mem_map.2 ⟨f, List.mem_filter.2 ⟨hf, by rw [hpath]; exact hstays⟩, hpath⟩

theorem Covered.foldl_enter {l : Ledger V} (h : l.Covered W) (fs : List (Path × List UInt8)) :
    (fs.foldl (Ledger.enter W files) l).Covered W := by
  induction fs generalizing l with
  | nil => exact h
  | cons f fs ih => exact ih (h.enter f)

theorem mem_records_foldl_enter {fs : List (Path × List UInt8)} {l : Ledger V} {q : Path} :
    q ∈ (fs.foldl (enter W files) l).records.map Prod.fst ↔
      q ∈ fs.map Prod.fst ∨ q ∈ l.records.map Prod.fst := by
  induction fs generalizing l with
  | nil => simp
  | cons f fs ih =>
    rw [List.foldl_cons, ih, enter, mem_note, List.map_cons, List.mem_cons]
    tauto

theorem Covered.strike_congr {l : Ledger V} (h : l.Covered W) {ps qs : List Path}
    (hsame : ∀ q ∈ l.records.map Prod.fst, q ∈ ps ↔ q ∈ qs) :
    l.strike W ps = l.strike W qs := by
  ext1
  · apply List.filter_congr
    intro f hf
    have hiff := hsame f.1 (List.mem_map_of_mem hf)
    by_cases hp : f.1 ∈ ps
    · simp [hp, hiff.1 hp]
    · simp [hp, mt hiff.2 hp]
  · funext k
    simp only [Ledger.strike, Scribe.dropAll]
    split
    · next hk => exact FactStore.without_congr fun r hr => hsame r.file (h k hk r hr)
    · rfl

/-- Two strikes lead to the same ledger exactly if they name the same recorded files. -/
theorem Covered.strike_eq_iff {l : Ledger V} (h : l.Covered W) {ps qs : List Path} :
    l.strike W ps = l.strike W qs ↔ ∀ q ∈ l.records.map Prod.fst, q ∈ ps ↔ q ∈ qs := by
  refine ⟨fun heq q hq => ?_, h.strike_congr⟩
  have hrecord : l.digest? q ≠ none := Option.isSome_iff_ne_none.1 (isSome_digest?.2 hq)
  have hdigest := congrArg (digest? · q) heq
  simp only [digest?_strike] at hdigest
  constructor
  · intro hp
    by_contra hnot
    rw [if_pos hp, if_neg hnot] at hdigest
    exact hrecord hdigest.symm
  · intro hq'
    by_contra hnot
    rw [if_pos hq', if_neg hnot] at hdigest
    exact hrecord hdigest

section Scan

variable (max : Nat) (files : FileTree) (l : Ledger V)

def due? (p : Path) : Option (List UInt8) :=
  match files.find p with
  | .ok (.file bytes) =>
    if max < bytes.length then none
    else if l.digest? p = some (Digest.sha256 bytes) then none
    else some bytes
  | _ => none

def leaves (p : Path) : Bool :=
  match files.find p with
  | .error .notFound => true
  | .ok (.file bytes) => decide (max < bytes.length) && (l.digest? p).isSome
  | _ => false

def entries (ps : List Path) : List (Path × List UInt8) :=
  ps.filterMap fun p => (l.due? max files p).map (Prod.mk p)

def exits (ps : List Path) : List Path := ps.filter (l.leaves max files)

def scan (W : List (Scribe V)) (ps : List Path) : Ledger V :=
  ((l.entries max files ps).foldl (enter W files) l).strike W (l.exits max files ps)

end Scan

variable {max : Nat}

theorem due?_congr {l l' : Ledger V} {p : Path} (h : l.digest? p = l'.digest? p) :
    l.due? max files p = l'.due? max files p := by
  unfold due?
  rw [h]

theorem leaves_congr {l l' : Ledger V} {p : Path} (h : l.digest? p = l'.digest? p) :
    l.leaves max files p = l'.leaves max files p := by
  unfold leaves
  rw [h]

theorem mem_entries {l : Ledger V} {ps : List Path} {f : Path × List UInt8} :
    f ∈ l.entries max files ps ↔ f.1 ∈ ps ∧ l.due? max files f.1 = some f.2 := by
  obtain ⟨p, bytes⟩ := f
  rw [entries, List.mem_filterMap]
  constructor
  · rintro ⟨q, hq, hdue⟩
    obtain ⟨b, hb, heq⟩ := Option.map_eq_some_iff.1 hdue
    cases heq
    exact ⟨hq, hb⟩
  · rintro ⟨hp, hdue⟩
    exact ⟨p, hp, Option.map_eq_some_iff.2 ⟨bytes, hdue, rfl⟩⟩

theorem find_of_due? {l : Ledger V} {p : Path} {bytes : List UInt8}
    (h : l.due? max files p = some bytes) :
    files.find p = .ok (.file bytes) ∧ bytes.length ≤ max ∧
      l.digest? p ≠ some (Digest.sha256 bytes) := by
  unfold due? at h
  split at h
  · next found hfind =>
    split at h
    · cases h
    · next hsmall =>
      split at h
      · cases h
      · next hdiffer =>
        cases h
        exact ⟨hfind, Nat.le_of_not_lt hsmall, hdiffer⟩
  · cases h

theorem leaves_of_due? {l : Ledger V} {p : Path} {bytes : List UInt8}
    (h : l.due? max files p = some bytes) : l.leaves max files p = false := by
  obtain ⟨hfind, hsmall, _⟩ := find_of_due? h
  unfold leaves
  simp [hfind, Nat.not_lt.2 hsmall]

theorem entries_congr {l l' : Ledger V} {ps : List Path}
    (h : ∀ p ∈ ps, l.digest? p = l'.digest? p) :
    l.entries max files ps = l'.entries max files ps :=
  List.filterMap_congr fun p hp => by rw [due?_congr (h p hp)]

theorem exits_congr {l l' : Ledger V} {ps : List Path}
    (h : ∀ p ∈ ps, l.digest? p = l'.digest? p) :
    l.exits max files ps = l'.exits max files ps :=
  List.filter_congr fun p hp => leaves_congr (h p hp)

theorem strike_scan {l : Ledger V} {ps qs : List Path} (h : ∀ p ∈ ps, p ∉ qs) :
    (l.strike W qs).scan max files W ps =
      ((l.entries max files ps).foldl (enter W files) l).strike W (qs ++ l.exits max files ps) := by
  have hdigest : ∀ p ∈ ps, (l.strike W qs).digest? p = l.digest? p := by
    intro p hp
    rw [digest?_strike, if_neg (h p hp)]
  rw [scan, entries_congr hdigest, exits_congr hdigest,
    ← strike_foldl_enter fun f hf => h f.1 (mem_entries.1 hf).1, strike_strike]

theorem scan_scan {l : Ledger V} {ps qs : List Path} (h : ∀ p ∈ ps, p ∉ qs) :
    (l.scan max files W ps).scan max files W qs = l.scan max files W (ps ++ qs) := by
  have hdigest : ∀ q ∈ qs,
      ((l.entries max files ps).foldl (enter W files) l).digest? q = l.digest? q := by
    intro q hq
    apply digest?_foldl_enter
    rintro f hf rfl
    exact h f.1 (mem_entries.1 hf).1 hq
  have hexits : ∀ q ∈ qs, q ∉ l.exits max files ps := fun q hq hp =>
    h q (List.mem_of_mem_filter hp) hq
  have hfirst : l.scan max files W ps =
      ((l.entries max files ps).foldl (enter W files) l).strike W (l.exits max files ps) := rfl
  -- The second scan finds its files recorded as before the first one, whose strikes move behind it.
  rw [hfirst, strike_scan hexits, entries_congr hdigest, exits_congr hdigest, ← List.foldl_append]
  unfold scan entries exits
  rw [List.filterMap_append, List.filter_append]

theorem foldl_scan {cs : List (List Path)} (h : cs.flatten.Nodup) (l : Ledger V) :
    cs.foldl (fun l ps => l.scan max files W ps) l = l.scan max files W cs.flatten := by
  induction cs generalizing l with
  | nil => exact (strike_nil l).symm
  | cons c cs ih =>
    rw [List.flatten_cons, List.nodup_append] at h
    obtain ⟨_, hrest, hdisjoint⟩ := h
    have hapart : ∀ p ∈ c, p ∉ cs.flatten := fun p hp hq => hdisjoint p hp p hq rfl
    rw [List.foldl_cons, ih hrest, scan_scan hapart, List.flatten_cons]

end Ledger

namespace Scanner

def ledger (V : Shelf σ) (s : Scanner σ) : Ledger V :=
  ⟨s.hashes.files.map TrackedFile.sansTime, fun k => V.store k s.facts⟩

/-- A scanner with these scribes, all stores open. -/
structure Employs (s : Scanner σ) (W : List (Scribe V)) : Prop where
  indexers : s.indexers = W.map Scribe.indexer
  isOpen : s.hashes.closed = false
  stores : V.IsOpen s.facts

theorem digest?_ledger (s : Scanner σ) (p : Path) :
    (s.ledger V).digest? p = s.hashes.digest? p := by
  have hpair := congrArg (Option.map Prod.snd) (s.hashes.map_sansTime_find? p)
  rw [Option.map_map] at hpair
  exact hpair.symm

variable {W : List (Scribe V)} {s : Scanner σ}

theorem Employs.settle (h : s.Employs W) (env : Surroundings) (now : Timestamp) (p : Path)
    (bytes : List UInt8) :
    (settle env now s (changedTo p bytes)).Employs W ∧
      (settle env now s (changedTo p bytes)).ledger V =
        (s.ledger V).enter W env.files (p, bytes) := by
  obtain ⟨hopen, hstore, hmissed⟩ :=
    Scribe.offer_store h.indexers env p (Text.decodeLossy bytes) h.stores
  refine ⟨⟨h.indexers, h.isOpen, hopen⟩, ?_⟩
  ext1
  · change (HashTable.put s.hashes.files ⟨p, if (s.offer env p (Text.decodeLossy bytes)
      (parsePath p (Text.decodeLossy bytes)) s.facts).2 = 0 then Digest.sha256 bytes
      else retryHash, now⟩).map TrackedFile.sansTime = _
    rw [hmissed, HashTable.map_sansTime_put]
    rfl
  · funext k
    exact hstore k

theorem Employs.discard (h : s.Employs W) (env : Surroundings) (ps : List Path) :
    (s.discard env ps).Employs W ∧ (s.discard env ps).ledger V = (s.ledger V).strike W ps := by
  obtain ⟨hopen, hstore, _⟩ := Scribe.removed_store_all W env ps h.stores
  rw [← h.indexers] at hopen hstore
  refine ⟨⟨h.indexers, h.isOpen, hopen⟩, ?_⟩
  ext1
  · change (s.hashes.files.filter fun f => !ps.contains f.path).map TrackedFile.sansTime = _
    simp only [Ledger.strike, ledger]
    rw [List.filter_map]
    rfl
  · funext k
    exact hstore k

theorem settle_prepare_eq (hopen : s.hashes.closed = false) (env : Surroundings) (now : Timestamp)
    (v : Scanner σ) (p : Path) :
    settle env now v (p, s.prepare env.files p) =
      match (s.ledger V).due? s.options.maxFileSize env.files p with
      | some bytes => settle env now v (changedTo p bytes)
      | none => v := by
  unfold prepare Ledger.due?
  rw [HashTable.hashOf_eq hopen, digest?_ledger]
  cases env.files.find p with
  | error cause => cases cause <;> rfl
  | ok e =>
    cases e with
    | file bytes =>
      dsimp only
      split
      · rfl
      · simp only [Except.toOption, beq_iff_eq, Option.some.injEq]
        split <;> rfl
    | link target => rfl
    | dir entries => rfl

theorem leaving?_prepare_eq (files : FileTree) (p : Path) :
    s.leaving? (p, s.prepare files p) =
      if (s.ledger V).leaves s.options.maxFileSize files p then some p else none := by
  have hrecord : ((s.ledger V).digest? p).isSome = (s.hashes.find? p).isSome := by
    rw [digest?_ledger, HashTable.digest?, Option.isSome_map]
  unfold prepare Ledger.leaves leaving?
  rw [hrecord]
  cases files.find p with
  | error cause => cases cause <;> rfl
  | ok e =>
    cases e with
    | file bytes =>
      dsimp only
      by_cases hlarge : s.options.maxFileSize < bytes.length
      · simp [hlarge]
      · simp only [if_neg hlarge, decide_eq_false hlarge, Bool.false_and]
        by_cases hsame : ((s.hashes.hashOf p).toOption == some (some (Digest.sha256 bytes))) = true
        · simp only [if_pos hsame]
          rfl
        · simp only [if_neg hsame]
          rfl
    | link target => rfl
    | dir entries => rfl

theorem leaving_eq (files : FileTree) (ps : List Path) :
    s.leaving files ps = (s.ledger V).exits s.options.maxFileSize files ps := by
  unfold leaving prepared Ledger.exits
  rw [List.filterMap_map, ← List.filterMap_eq_filter]
  apply List.filterMap_congr
  intro p _
  exact leaving?_prepare_eq files p

theorem Employs.foldl_settle (h : s.Employs W) (env : Surroundings) (now : Timestamp)
    (ps : List Path) {v : Scanner σ} (hv : v.Employs W) :
    ((s.prepared env.files ps).foldl (Scanner.settle env now) v).Employs W ∧
      ((s.prepared env.files ps).foldl (Scanner.settle env now) v).ledger V =
        ((s.ledger V).entries s.options.maxFileSize env.files ps).foldl
          (Ledger.enter W env.files) (v.ledger V) := by
  unfold prepared Ledger.entries
  induction ps generalizing v with
  | nil => exact ⟨hv, rfl⟩
  | cons p ps ih =>
    have hstep := settle_prepare_eq (V := V) h.isOpen env now v p
    rw [List.map_cons, List.foldl_cons, hstep, List.filterMap_cons]
    cases (s.ledger V).due? s.options.maxFileSize env.files p with
    | none => exact ih hv
    | some bytes =>
      obtain ⟨hemploys, hledger⟩ := hv.settle env now p bytes
      obtain ⟨hemploys', hledger'⟩ := ih hemploys
      exact ⟨hemploys', by rw [hledger', hledger]; rfl⟩

theorem Employs.settled (h : s.Employs W) (env : Surroundings) (now : Timestamp)
    (ps : List Path) :
    (s.settled env now ps).Employs W ∧ (s.settled env now ps).ledger V =
      ((s.ledger V).entries s.options.maxFileSize env.files ps).foldl
        (Ledger.enter W env.files) (s.ledger V) :=
  h.foldl_settle env now ps h

theorem Employs.afterChunk (h : s.Employs W) (env : Surroundings) (now : Timestamp)
    (ps : List Path) :
    (s.afterChunk env now ps).Employs W ∧ (s.afterChunk env now ps).ledger V =
      (s.ledger V).scan s.options.maxFileSize env.files W ps := by
  obtain ⟨hemploys, hledger⟩ := h.settled env now ps
  unfold Scanner.afterChunk Ledger.scan
  rw [leaving_eq (V := V)]
  split
  · next hempty =>
    rw [List.isEmpty_iff] at hempty
    rw [hempty, Ledger.strike_nil]
    exact ⟨hemploys, hledger⟩
  · obtain ⟨hemploys', hledger'⟩ := hemploys.discard env
      ((s.ledger V).exits s.options.maxFileSize env.files ps)
    exact ⟨hemploys', hledger'.trans (congrArg (Ledger.strike W · _) hledger)⟩

theorem Employs.foldl_afterChunk (h : s.Employs W) (env : Surroundings) (now : Timestamp)
    (cs : List (List Path)) :
    (cs.foldl (Scanner.afterChunk env now) s).Employs W ∧
      (cs.foldl (Scanner.afterChunk env now) s).ledger V =
        cs.foldl (fun l ps => l.scan s.options.maxFileSize env.files W ps) (s.ledger V) := by
  induction cs generalizing s with
  | nil => exact ⟨h, rfl⟩
  | cons c cs ih =>
    obtain ⟨hemploys, hledger⟩ := h.afterChunk env now c
    obtain ⟨hemploys', hledger'⟩ := ih hemploys
    refine ⟨hemploys', ?_⟩
    rw [List.foldl_cons, List.foldl_cons, hledger', hledger,
      (sameProject_afterChunk env now s c).options]

theorem Employs.afterFiles (h : s.Employs W) (env : Surroundings) (now : Timestamp)
    {ps : List Path} (hnodup : ps.Nodup) :
    (s.afterFiles env now ps).Employs W ∧ (s.afterFiles env now ps).ledger V =
      (s.ledger V).scan s.options.maxFileSize env.files W ps := by
  rw [← flatten_chunksOf (s.options.chunkSize - 1) ps] at hnodup
  obtain ⟨hemploys, hledger⟩ := h.foldl_afterChunk env now (chunksOf (s.options.chunkSize - 1) ps)
  refine ⟨hemploys, hledger.trans ?_⟩
  rw [Ledger.foldl_scan hnodup, flatten_chunksOf]

theorem Employs.trimmed (h : s.Employs W) (env : Surroundings) :
    (s.trimmed env).Employs W ∧
      (s.trimmed env).ledger V = (s.ledger V).strike W (s.gone env.files) := by
  unfold Scanner.trimmed
  split
  · next hempty =>
    rw [List.isEmpty_iff] at hempty
    rw [hempty, Ledger.strike_nil]
    exact ⟨h, rfl⟩
  · exact h.discard env _

end Scanner
end ProjectIndex
