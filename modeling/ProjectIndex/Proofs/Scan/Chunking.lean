import ProjectIndex.Proofs.Scan.CallLog
import ProjectIndex.Proofs.Scan.Incremental

/-!
Chunks and the pool. The files of a chunk are prepared by a pool, in any order, and the hashes and
removals of a chunk wait for its end. Neither shows: whatever the size of the chunks and the order
of the pool, a scan makes the same calls in the same order, leaves the same records and rows, and
reports the same.
-/
namespace ProjectIndex

variable {σ : Type}

/-- For each chunk, the order in which a pool takes up its files. -/
structure Schedule where
  order : List Path → List Nat
  perm : ∀ ps, (order ps).Perm (List.range ps.length)

def fill {α : Type} (work : Nat → α) (order : List Nat) (places : List α) : List α :=
  order.foldl (fun places i => places.set i (work i)) places

theorem length_fill {α : Type} (work : Nat → α) (order : List Nat) (places : List α) :
    (fill work order places).length = places.length := by
  induction order generalizing places with
  | nil => rfl
  | cons i order ih => exact (ih _).trans List.length_set

theorem getElem?_fill {α : Type} (work : Nat → α) (order : List Nat) {places : List α} {j : Nat}
    (hj : j < places.length) :
    (fill work order places)[j]? = if j ∈ order then some (work j) else places[j]? := by
  induction order generalizing places with
  | nil => simp [fill]
  | cons i order ih =>
    have hset : (fill work (i :: order) places) = fill work order (places.set i (work i)) := rfl
    rw [hset, ih (List.length_set.symm ▸ hj), List.getElem?_set]
    by_cases hmem : j ∈ order
    · simp [hmem]
    · by_cases hij : i = j
      · simp [hmem, hij, hj]
      · simp [hmem, hij, Ne.symm hij]

/-- The files of a chunk, prepared one by one as the pool gets to them. -/
def Schedule.prepare (pool : Schedule) : Preparer σ := fun s files ps =>
  (fill (fun i => ps[i]?.map fun p => (p, s.prepare files p)) (pool.order ps)
    (List.replicate ps.length none)).filterMap id

theorem Schedule.prepare_eq (pool : Schedule) :
    (pool.prepare : Preparer σ) = Scanner.prepared := by
  funext s files ps
  have hfilled : fill (fun i => ps[i]?.map fun p => (p, s.prepare files p)) (pool.order ps)
      (List.replicate ps.length none) = ps.map fun p => some (p, s.prepare files p) := by
    apply List.ext_getElem?
    intro j
    by_cases hj : j < ps.length
    · have hmem : j ∈ pool.order ps := (pool.perm ps).mem_iff.2 (List.mem_range.2 hj)
      rw [getElem?_fill _ _ (by simpa using hj), if_pos hmem]
      simp [hj]
    · have hle : ps.length ≤ j := Nat.le_of_not_lt hj
      rw [List.getElem?_eq_none (by rw [length_fill, List.length_replicate]; exact hle),
        List.getElem?_eq_none (by rw [List.length_map]; exact hle)]
  rw [prepare, hfilled, List.filterMap_map]
  exact List.filterMap_eq_map ▸ rfl

inductive ScanRequest where
  | all (force : Bool)
  | files (paths : List Path)

namespace Scanner

def withChunkSize (s : Scanner σ) (n : Nat) : Scanner σ :=
  { s with options := { s.options with chunkSize := n } }

def serve (s : Scanner σ) (m : Moment) (q : ScanRequest) (pool : Preparer σ := prepared) :
    Scanner σ × Except Failure ScanReport :=
  match q with
  | .all force => s.indexAll m force pool
  | .files ps => s.indexFiles m ps pool

/-- Serves a request with a pool that prepares the files of each chunk in its own order. -/
def serveOn (s : Scanner σ) (pool : Schedule) (m : Moment) (q : ScanRequest) :
    Scanner σ × Except Failure ScanReport := s.serve m q pool.prepare

theorem serveOn_eq (s : Scanner σ) (pool : Schedule) (m : Moment) (q : ScanRequest) :
    s.serveOn pool m q = s.serve m q := by
  rw [serveOn, pool.prepare_eq]

theorem serve_of_closed {s : Scanner σ} (h : s.closed = true) (m : Moment) (q : ScanRequest) :
    s.serve m q = (s, .error closedError) := by
  cases q <;> exact if_pos h

section Calls

variable {V : Shelf (σ × List IndexCall)} {W : List (Scribe V)} {is : List (Indexer σ)}
  {t : Scanner (σ × List IndexCall)} {files : FileTree}

/-- Runs that all lead to one ledger and one answer and make the calls for the files that are due,
in the order of their paths. -/
structure Settles (V : Shelf (σ × List IndexCall)) (is : List (Indexer σ)) (files : FileTree)
    (log : List IndexCall)
    (run : Nat → Timestamp → Scanner (σ × List IndexCall) × Except Failure ScanReport)
    (due : List (Path × List UInt8)) (l : Ledger V) (answer : Except Failure ScanReport) :
    Prop where
  sorted : due.Pairwise fun f g => Path.before f.1 g.1 = true ∧ Path.same f.1 g.1 = false
  found : ∀ f ∈ due, files.find f.1 = .ok (.file f.2)
  ledger : ∀ n now, (run n now).1.ledger V = l
  answer : ∀ n now, (run n now).2 = answer
  calls : ∀ n now, (run n now).1.facts.2 = log ++ due.flatMap (indexCalls is)

theorem pairwise_entries {R : Path → Path → Prop} {l : Ledger V} {max : Nat} {ps : List Path}
    (h : ps.Pairwise R) : (l.entries max files ps).Pairwise fun f g => R f.1 g.1 := by
  refine h.filterMap _ fun p q hpq f hf g hg => ?_
  obtain ⟨_, _, rfl⟩ := Option.map_eq_some_iff.1 hf
  obtain ⟨_, _, rfl⟩ := Option.map_eq_some_iff.1 hg
  exact hpq

theorem find_of_mem_entries {l : Ledger V} {max : Nat} {ps : List Path} {f : Path × List UInt8}
    (h : f ∈ l.entries max files ps) : files.find f.1 = .ok (.file f.2) :=
  (Ledger.find_of_due? (Ledger.mem_entries.1 h).2).1

theorem Employs.withChunkSize (h : t.Employs W) (n : Nat) : (t.withChunkSize n).Employs W :=
  ⟨h.indexers, h.isOpen, h.stores⟩

theorem nodup_of_strict {ps : List Path}
    (h : ps.Pairwise fun p q => Path.before p q = true ∧ Path.same p q = false) : ps.Nodup := by
  refine h.imp ?_
  rintro p q ⟨_, hdiffers⟩ rfl
  exact Bool.noConfusion (hdiffers.symm.trans (Path.same_iff.2 rfl))

theorem strict_requested (t : Scanner (σ × List IndexCall)) (ps : List Path) :
    (t.requested ps).Pairwise fun p q => Path.before p q = true ∧ Path.same p q = false :=
  (t.pairwise_requested ps).and (Path.pairwise_dedup (Path.pairwise_sort _))

theorem Employs.settles_files (h : t.Employs W) (ht : t.indexers = is.map Indexer.logged)
    (env : Surroundings) {ps : List Path}
    (hps : ps.Pairwise fun p q => Path.before p q = true ∧ Path.same p q = false)
    (r : ScanReport) :
    ∃ due l answer, Settles V is env.files t.facts.2
      (fun n now => (t.withChunkSize n).process env now ps r) due l answer := by
  let l := t.ledger V
  let max := t.options.maxFileSize
  have hnodup := nodup_of_strict hps
  have hprocess := fun n now => (h.withChunkSize n).process env now hnodup r
  refine ⟨l.entries max env.files ps, l.scan max env.files W ps,
    .ok (r.plus (l.tally W max env.files ps)), pairwise_entries hps,
    fun f hf => find_of_mem_entries hf, fun n now => ?_, fun n now => ?_, fun n now => ?_⟩
  · rw [hprocess]
    exact ((h.withChunkSize n).afterFiles env now hnodup).2
  · rw [hprocess]
    rfl
  · rw [hprocess]
    exact (h.withChunkSize n).log_afterFiles ht now hnodup

theorem Employs.settles_synchronize (h : t.Employs W) (ht : t.indexers = is.map Indexer.logged)
    (env : Surroundings)
    (hwalk : (t.walk env.files).Pairwise
      fun p q => Path.before p q = true ∧ Path.same p q = false) :
    ∃ due l answer, Settles V is env.files t.facts.2
      (fun n now => (t.withChunkSize n).synchronize env now) due l answer := by
  have htrimmed : ∀ n, (t.withChunkSize n).trimmed env = (t.trimmed env).withChunkSize n := by
    intro n
    change (if (t.gone env.files).isEmpty then t.withChunkSize n else
      (t.withChunkSize n).discard env (t.gone env.files)) = _
    rw [Scanner.trimmed]
    split <;> rfl
  have hrun : (fun n now => (t.withChunkSize n).synchronize env now) = fun n now =>
      ((t.trimmed env).withChunkSize n).process env now (t.walk env.files)
        { removed := (t.gone env.files).length } := by
    funext n now
    rw [(h.withChunkSize n).synchronize_eq, htrimmed]
    rfl
  have hindexers := (sameProject_trimmed env t).indexers.trans ht
  have hlog : (t.trimmed env).facts.2 = t.facts.2 := log_trimmed ht
  rw [hrun, ← hlog]
  exact (h.trimmed env).1.settles_files hindexers env hwalk _

theorem clearAll_withChunkSize (t : Scanner (σ × List IndexCall)) (n : Nat) (env : Surroundings) :
    (t.withChunkSize n).clearAll env =
      ((t.clearAll env).1.withChunkSize n, (t.clearAll env).2) := by
  unfold clearAll withChunkSize
  dsimp only
  obtain ⟨facts, failure⟩ := callUntilFailure (fun i => i.clear env) t.indexers t.facts
  cases failure with
  | some e => rfl
  | none =>
    dsimp only
    cases t.hashes.clear <;> rfl

/-- Whether the stores are open again once the scribe has dropped every fact. -/
def KeepsOpen {τ : Type} {V : Shelf τ} (w : Scribe V) : Prop :=
  ∀ env facts, V.IsOpen facts → V.IsOpen (w.indexer.clear env facts).1

theorem isOpen_callUntilFailure {τ : Type} {V : Shelf τ} {W : List (Scribe V)}
    (hclear : ∀ w ∈ W, KeepsOpen w) (env : Surroundings) {facts : τ} (hopen : V.IsOpen facts) :
    V.IsOpen (callUntilFailure (fun i => i.clear env) (W.map Scribe.indexer) facts).1 := by
  induction W generalizing facts with
  | nil => exact hopen
  | cons w W ih =>
    have hfirst := hclear w (List.mem_cons_self ..) env facts hopen
    rw [List.map_cons, callUntilFailure]
    split
    · next hcall =>
      rw [hcall] at hfirst
      exact ih (fun v hv => hclear v (List.mem_cons_of_mem _ hv)) hfirst
    · next hcall =>
      rw [hcall] at hfirst
      exact hfirst

theorem Employs.clearAll {τ : Type} {V : Shelf τ} {W : List (Scribe V)} {s : Scanner τ}
    (h : s.Employs W) (hclear : ∀ w ∈ W, KeepsOpen w) (env : Surroundings) :
    (s.clearAll env).1.Employs W := by
  have hopen := isOpen_callUntilFailure hclear env h.stores
  rw [← h.indexers] at hopen
  unfold Scanner.clearAll
  split
  · next hcall =>
    rw [hcall] at hopen
    exact ⟨h.indexers, h.isOpen, hopen⟩
  · next hcall =>
    rw [hcall] at hopen
    rw [HashTable.clear_eq h.isOpen]
    exact ⟨h.indexers, rfl, hopen⟩

theorem serve_update (hclosed : t.closed = false) (m : Moment) :
    t.serve m (.all false) = t.synchronize ⟨m.files, .scanning true⟩ m.now := by
  simp [serve, indexAll, hclosed]

theorem serve_rebuild (hclosed : t.closed = false) {m : Moment}
    {u : Scanner (σ × List IndexCall)} {answer : Except Failure Unit}
    (hclear : t.clearAll ⟨m.files, .scanning true⟩ = (u, answer)) :
    (∀ e, answer = .error e → t.serve m (.all true) = (u, .error e)) ∧
      (answer = .ok () →
        t.serve m (.all true) = u.synchronize ⟨m.files, .scanning true⟩ m.now) := by
  constructor
  · rintro e rfl
    simp [serve, indexAll, hclosed, hclear]
  · rintro rfl
    simp [serve, indexAll, hclosed, hclear]

theorem Employs.settles (h : t.Employs W) (ht : t.indexers = is.map Indexer.logged)
    (hclear : ∀ w ∈ W, KeepsOpen w) (hclosed : t.closed = false)
    (hwalk : (t.walk files).Pairwise fun p q => Path.before p q = true ∧ Path.same p q = false)
    (q : ScanRequest) :
    ∃ due l answer, Settles V is files t.facts.2
      (fun n now => (t.withChunkSize n).serve ⟨files, now⟩ q) due l answer := by
  let env : Surroundings := ⟨files, .scanning true⟩
  cases q with
  | files ps =>
    have hrun : (fun n now => (t.withChunkSize n).serve ⟨files, now⟩ (.files ps)) = fun n now =>
        (t.withChunkSize n).process ⟨files, .scanning false⟩ now (t.requested ps) {} := by
      funext n now
      exact if_neg (ne_true_of_eq_false hclosed)
    rw [hrun]
    exact h.settles_files ht ⟨files, .scanning false⟩ (strict_requested t ps) {}
  | all force =>
    cases force with
    | false =>
      have hrun : (fun n now => (t.withChunkSize n).serve ⟨files, now⟩ (.all false)) =
          fun n now => (t.withChunkSize n).synchronize env now := by
        funext n now
        exact serve_update (t := t.withChunkSize n) hclosed ⟨files, now⟩
      rw [hrun]
      exact h.settles_synchronize ht env hwalk
    | true =>
      have hemploys := h.clearAll hclear env
      have hsame := sameProject_clearAll env t
      have hlog : (t.clearAll env).1.facts.2 = t.facts.2 := log_clearAll ht
      have hcleared := fun n => t.clearAll_withChunkSize n env
      obtain ⟨u, answer, hu⟩ : ∃ u a, t.clearAll env = (u, a) := ⟨_, _, rfl⟩
      rw [hu] at hemploys hsame hlog
      simp only [hu] at hcleared
      have hserve := fun n now => serve_rebuild (t := t.withChunkSize n) (m := ⟨files, now⟩) hclosed
        (hcleared n)
      cases answer with
      | error e =>
        -- Nothing is scanned if something cannot be forgotten.
        have hrun : ∀ n now, (t.withChunkSize n).serve ⟨files, now⟩ (.all true) =
            (u.withChunkSize n, .error e) := fun n now => (hserve n now).1 e rfl
        exact ⟨[], u.ledger V, .error e, List.Pairwise.nil, nofun, fun n now => by rw [hrun]; rfl,
          fun n now => by rw [hrun], fun n now => by
            rw [hrun]
            exact hlog.trans (List.append_nil _).symm⟩
      | ok _ =>
        have hrun : (fun n now => (t.withChunkSize n).serve ⟨files, now⟩ (.all true)) =
            fun n now => (u.withChunkSize n).synchronize env now := by
          funext n now
          exact (hserve n now).2 rfl
        have hsamewalk : u.walk files = t.walk files := hsame.walk files
        rw [hrun, ← hlog]
        exact hemploys.settles_synchronize (hsame.indexers.trans ht) env (hsamewalk ▸ hwalk)

end Calls

section Reached

variable {V : Shelf σ} {W : List (Scribe V)} {s : Scanner σ} {files : FileTree}

theorem employs_invariant (hclear : ∀ w ∈ W, KeepsOpen w) :
    Invariant (fun _ _ => True) fun s : Scanner σ => s.Employs W where
  isOpen h := h.isOpen
  settle env now _ p bytes _ h := (h.settle env now p bytes).1
  discard env _ ps h := (h.discard env ps).1
  clear env _ h := h.clearAll hclear env

theorem Reached.employs (hclear : ∀ w ∈ W, KeepsOpen w) (h : Reached W s) :
    s.Employs W ∧ s.closed = false ∧
      ∃ place, s.root = FileTree.pathOf place ∧ ∀ n ∈ place, Plain n := by
  induction h with
  | opened hopen _ h =>
    have hroot := root_of_open? h
    obtain ⟨canonical, _, rfl⟩ := open?_eq_ok h
    exact ⟨⟨rfl, rfl, hopen⟩, rfl, hroot⟩
  | @called s m c _ ih =>
    obtain ⟨hemploys, hclosed, hroot⟩ := ih
    obtain ⟨hemploys', hsame⟩ := ((employs_invariant hclear).withProject s).call m c
      (fun _ _ _ _ => trivial) ⟨hemploys, rfl, rfl, rfl, rfl⟩
    exact ⟨hemploys', hsame.closed.trans hclosed, hsame.root ▸ hroot⟩
  | reopened _ hopen _ _ ht _ =>
    have hroot := root_of_open? ht
    obtain ⟨canonical, _, rfl⟩ := open?_eq_ok ht
    exact ⟨⟨rfl, rfl, hopen⟩, rfl, hroot⟩

theorem Employs.logged (h : s.Employs W) : s.logged.Employs (W.map Scribe.logged) := by
  refine ⟨?_, h.isOpen, h.stores⟩
  change s.indexers.map Indexer.logged = _
  rw [h.indexers, List.map_map, List.map_map]
  rfl

theorem logs_logged (h : s.hashes.closed = false) : s.Logs s.logged :=
  ⟨rfl, rfl, rfl, rfl, rfl, rfl, h⟩

theorem Logs.serve {t : Scanner (σ × List IndexCall)} (h : s.Logs t) (m : Moment)
    (q : ScanRequest) : Logs.SameAnswer (s.serve m q) (t.serve m q) := by
  cases q with
  | all force => exact h.indexAll m force
  | files ps => exact h.indexFiles m ps

/-- A request leads to one ledger and one answer and makes one sequence of calls, whatever the size
of the chunks, the order in which the pool prepares the files of each, and the time: the files that
are due in the order of their paths, each handed to the indexers that accept it, in the order of
their registration. -/
theorem chunks_do_not_matter (hclear : ∀ w ∈ W, KeepsOpen w)
    (hs : s.closed = true ∨ Reached W s) (hfiles : files.root.isWellNamed = true)
    (q : ScanRequest) :
    ∃ (due : List (Path × List UInt8)) (l : Ledger V) (answer : Except Failure ScanReport),
      (due.Pairwise fun f g => Path.before f.1 g.1 = true ∧ Path.same f.1 g.1 = false) ∧
      (∀ f ∈ due, files.find f.1 = .ok (.file f.2)) ∧
      ∀ (n : Nat) (pool : Schedule) (now : Timestamp),
        let o := (s.withChunkSize n).serveOn pool ⟨files, now⟩ q
        let o' := (s.withChunkSize n).logged.serveOn pool ⟨files, now⟩ q
        o.1.ledger V = l ∧ o.2 = answer ∧
          o'.1.facts = (o.1.facts, due.flatMap (indexCalls s.indexers)) ∧
          o'.1.hashes = o.1.hashes ∧ o'.2 = answer := by
  rcases hs with hclosed | hreached
  · refine ⟨[], s.ledger V, .error closedError, List.Pairwise.nil, nofun, fun n pool now => ?_⟩
    rw [serveOn_eq, serveOn_eq, serve_of_closed (s := s.withChunkSize n) hclosed,
      serve_of_closed (s := (s.withChunkSize n).logged) hclosed]
    exact ⟨rfl, rfl, rfl, rfl, rfl⟩
  · obtain ⟨hemploys, hclosed, place, hroot, hplain⟩ := hreached.employs hclear
    have hclear' : ∀ w ∈ W.map Scribe.logged, KeepsOpen w := by
      intro w' hw'
      obtain ⟨w, hw, rfl⟩ := List.mem_map.1 hw'
      exact fun env facts hopen => hclear w hw env facts.1 hopen
    have hwalk : (s.walk files).Pairwise
        fun p q => Path.before p q = true ∧ Path.same p q = false := by
      unfold walk
      rw [hroot]
      exact FileTree.strict_walk hfiles hplain _ _
    obtain ⟨due, l, answer, hsettles⟩ := hemploys.logged.settles rfl hclear' hclosed hwalk q
    refine ⟨due, ⟨l.records, l.store⟩, answer, hsettles.sorted, hsettles.found,
      fun n pool now => ?_⟩
    -- The scanner itself does what the one that writes down its calls does.
    obtain ⟨u, v, a, hu, hv, hlogs⟩ :=
      (logs_logged (s := s.withChunkSize n) hemploys.isOpen).serve ⟨files, now⟩ q
    have hrun : (s.logged.withChunkSize n).serve ⟨files, now⟩ q = (v, a) := hv
    have hledger : v.ledger V.logged = l := by simpa only [hrun] using hsettles.ledger n now
    have hanswer : a = answer := by simpa only [hrun] using hsettles.answer n now
    have hcalls : v.facts.2 = due.flatMap (indexCalls s.indexers) := by
      have hlog := hsettles.calls n now
      rw [hrun] at hlog
      exact hlog
    rw [serveOn_eq, serveOn_eq, hu, hv]
    refine ⟨?_, hanswer, Prod.ext hlogs.facts hcalls, hlogs.hashes, hanswer⟩
    rw [← hledger]
    unfold ledger
    rw [hlogs.hashes, ← hlogs.facts]
    rfl

theorem keepsOpen_of_clears {w : Scribe V} (h : w.Clears) : KeepsOpen w := fun env _ hopen =>
  h.isOpen env hopen

end Reached

/-- A manifest has moved since the last scan: the old one is gone and the new one is due. -/
theorem chunks_do_not_matter_moved :
    let s := nestedScanner "gone"
    let files := Registry.projectWith (manifestOf "B")
    Reached Facts.scribes s ∧ files.root.isWellNamed = true ∧
      ∃ (due : List (Path × List UInt8)) (l : Ledger Facts.parts.whole)
        (answer : Except Failure ScanReport),
        (due.Pairwise fun f g => Path.before f.1 g.1 = true ∧ Path.same f.1 g.1 = false) ∧
        (∀ f ∈ due, files.find f.1 = .ok (.file f.2)) ∧
        ∀ (n : Nat) (pool : Schedule) (now : Timestamp),
          let o := (s.withChunkSize n).serveOn pool ⟨files, now⟩ (.all false)
          let o' := (s.withChunkSize n).logged.serveOn pool ⟨files, now⟩ (.all false)
          o.1.ledger Facts.parts.whole = l ∧ o.2 = answer ∧
            o'.1.facts = (o.1.facts, due.flatMap (indexCalls s.indexers)) ∧
            o'.1.hashes = o.1.hashes ∧ o'.2 = answer := by
  intro s files
  have hfiles := (nestedScanner_canRead "gone" "B").isWellNamed
  exact ⟨nestedScanner_reached "gone", hfiles, chunks_do_not_matter
    (fun w hw => keepsOpen_of_clears (Facts.scribes_clear w hw))
    (.inr (nestedScanner_reached "gone")) hfiles (.all false)⟩

end Scanner
end ProjectIndex
