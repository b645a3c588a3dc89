import ProjectIndex.Proofs.Scan.Tally

/-!
Which calls a scan makes. An indexer can be made to write down its calls, and a scanner with such
indexers does what it did without. Its log shows that the files that are due are handed out in the
order in which they were asked for, each to the indexers that accept it, in the order of their
registration.
-/
namespace ProjectIndex

structure IndexCall where
  indexer : String
  path : Path
  tree : SyntaxTree
  src : Source

variable {σ : Type}

def Indexer.logged (i : Indexer σ) : Indexer (σ × List IndexCall) :=
  { i.onPart Prod.fst fun facts t => (facts, t.2) with
    index := fun env p tree src t =>
      let o := i.index env p tree src t.1
      ((o.1, t.2 ++ [⟨i.id, p, tree, src⟩]), o.2) }

def Shelf.logged (V : Shelf σ) : Shelf (σ × List IndexCall) where
  Slot := V.Slot
  Fact := V.Fact
  store k t := V.store k t.1

def Scribe.logged {V : Shelf σ} (w : Scribe V) : Scribe V.logged where
  indexer := w.indexer.logged
  owns := w.owns
  saves := w.saves
  fails := w.fails
  index_store env p tree src t := w.index_store env p tree src t.1
  index_fails env p tree src t := w.index_fails env p tree src t.1
  removed_store env ps t := w.removed_store env ps t.1
  removed_ok env ps t := w.removed_ok env ps t.1

namespace Scanner

def logged (s : Scanner σ) : Scanner (σ × List IndexCall) :=
  { s with indexers := s.indexers.map Indexer.logged, facts := (s.facts, []) }

/-- A scanner that does what another does, and writes down the calls. -/
structure Logs (s : Scanner σ) (t : Scanner (σ × List IndexCall)) : Prop where
  root : t.root = s.root
  options : t.options = s.options
  indexers : t.indexers = s.indexers.map Indexer.logged
  hashes : t.hashes = s.hashes
  facts : t.facts.1 = s.facts
  closed : t.closed = s.closed
  isOpen : s.hashes.closed = false

section Rounds

variable (call : Indexer σ → σ → Outcome σ)
  (call' : Indexer (σ × List IndexCall) → σ × List IndexCall → Outcome (σ × List IndexCall))
  (hcall : ∀ i t, (call' i.logged t).1.1 = (call i t.1).1 ∧ (call' i.logged t).2 = (call i t.1).2)

include hcall

theorem callEach_logged (is : List (Indexer σ)) (t : σ × List IndexCall) :
    (callEach call' (is.map Indexer.logged) t).1.1 = (callEach call is t.1).1 ∧
      (callEach call' (is.map Indexer.logged) t).2 = (callEach call is t.1).2 := by
  induction is generalizing t with
  | nil => exact ⟨rfl, rfl⟩
  | cons i is ih =>
    obtain ⟨hfacts, hfailure⟩ := hcall i t
    obtain ⟨hfacts', hcount⟩ := ih (call' i.logged t).1
    rw [hfacts] at hfacts' hcount
    simp only [List.map_cons, callEach]
    exact ⟨hfacts', by rw [hcount, hfailure]⟩

theorem callUntilFailure_logged (is : List (Indexer σ)) (t : σ × List IndexCall) :
    (callUntilFailure call' (is.map Indexer.logged) t).1.1 = (callUntilFailure call is t.1).1 ∧
      (callUntilFailure call' (is.map Indexer.logged) t).2 =
        (callUntilFailure call is t.1).2 := by
  induction is generalizing t with
  | nil => exact ⟨rfl, rfl⟩
  | cons i is ih =>
    obtain ⟨hfacts, hfailure⟩ := hcall i t
    simp only [List.map_cons, callUntilFailure]
    obtain ⟨facts, failure, hc⟩ : ∃ f e, call i t.1 = (f, e) := ⟨_, _, rfl⟩
    obtain ⟨facts', failure', hc'⟩ : ∃ f e, call' i.logged t = (f, e) := ⟨_, _, rfl⟩
    rw [hc, hc'] at hfacts hfailure
    rw [hc, hc']
    simp only at hfacts hfailure
    subst hfacts hfailure
    cases failure' with
    | none => exact ih facts'
    | some e => exact ⟨rfl, rfl⟩

end Rounds

namespace Logs

variable {s : Scanner σ} {t : Scanner (σ × List IndexCall)}

theorem prepared (h : s.Logs t) (files : FileTree) (ps : List Path) :
    t.prepared files ps = s.prepared files ps := by
  unfold Scanner.prepared prepare
  rw [h.options, h.hashes]

theorem offer (h : s.Logs t) (env : Surroundings) (p : Path) (src : Source)
    (tree : Except Failure SyntaxTree) (facts : σ × List IndexCall) :
    (t.offer env p src tree facts).1.1 = (s.offer env p src tree facts.1).1 ∧
      (t.offer env p src tree facts).2 = (s.offer env p src tree facts.1).2 := by
  have haccepting : t.indexers.filter (fun i => i.accepts p) =
      (s.indexers.filter fun i => i.accepts p).map Indexer.logged := by
    rw [h.indexers, List.filter_map]
    rfl
  unfold Scanner.offer
  rw [haccepting]
  cases tree with
  | ok tree => exact callEach_logged _ _ (fun _ _ => ⟨rfl, rfl⟩) _ facts
  | error e => exact callEach_logged _ _ (fun _ _ => ⟨rfl, rfl⟩) _ facts

structure Dispatched (d : Dispatch σ) (e : Dispatch (σ × List IndexCall)) : Prop where
  facts : e.facts.1 = d.facts
  report : e.report = d.report
  tracked : e.tracked = d.tracked
  dropped : e.dropped = d.dropped

theorem dispatch (h : s.Logs t) (env : Surroundings) (now : Timestamp) {d : Dispatch σ}
    {e : Dispatch (σ × List IndexCall)} (hd : Dispatched d e) (file : Path × Prepared) :
    Dispatched (s.dispatch env now d file) (t.dispatch env now e file) := by
  obtain ⟨p, prep⟩ := file
  unfold Scanner.dispatch
  cases prep with
  | changed hash src tree =>
    obtain ⟨hfacts, hfailed⟩ := h.offer env p src tree e.facts
    rw [hd.facts] at hfacts hfailed
    exact ⟨hfacts, by simp only [hfailed, hd.report], by simp only [hfailed, hd.tracked], hd.dropped⟩
  | oversized =>
    exact ⟨hd.facts, by simp only [hd.report], hd.tracked, by simp only [h.hashes, hd.dropped]⟩
  | missing => exact ⟨hd.facts, by simp only [hd.report], hd.tracked, by simp only [hd.dropped]⟩
  | unchanged => exact ⟨hd.facts, by simp only [hd.report], hd.tracked, hd.dropped⟩
  | skipped => exact ⟨hd.facts, by simp only [hd.report], hd.tracked, hd.dropped⟩

def SameAnswer {α : Type} (a : Scanner σ × Except Failure α)
    (b : Scanner (σ × List IndexCall) × Except Failure α) : Prop :=
  ∃ s t answer, a = (s, answer) ∧ b = (t, answer) ∧ s.Logs t

theorem dispatchRemoval (h : s.Logs t) (env : Surroundings) (ps : List Path) (r : ScanReport) :
    SameAnswer (s.dispatchRemoval env ps r) (t.dispatchRemoval env ps r) := by
  obtain ⟨hfacts, hfailed⟩ := callEach_logged (fun i => i.removed env ps)
    (fun i => i.removed env ps) (fun _ _ => ⟨rfl, rfl⟩) s.indexers t.facts
  rw [h.facts] at hfacts hfailed
  rw [dispatchRemoval_eq h.isOpen, dispatchRemoval_eq (h.hashes ▸ h.isOpen), h.indexers, hfailed]
  refine ⟨_, _, _, rfl, rfl, ⟨h.root, h.options, h.indexers, ?_, ?_, h.closed, h.isOpen⟩⟩
  · exact congrArg (HashTable.without · ps) h.hashes
  · change (callEach _ t.indexers t.facts).1.1 = _
    rw [h.indexers]
    exact hfacts

theorem dispatched (h : s.Logs t) (env : Surroundings) (now : Timestamp) (ps : List Path)
    (r : ScanReport) : Dispatched (s.dispatched env now ps r) (t.dispatched env now ps r) := by
  unfold Scanner.dispatched
  rw [h.prepared]
  exact List.foldl_rel ⟨h.facts, rfl, rfl, rfl⟩ fun file _ _ _ hd => h.dispatch env now hd file

theorem processChunk (h : s.Logs t) (env : Surroundings) (now : Timestamp) (ps : List Path)
    (r : ScanReport) : SameAnswer (s.processChunk env now ps r) (t.processChunk env now ps r) := by
  have hd := h.dispatched env now ps r
  have hrecorded : (s.recorded (s.dispatched env now ps r)).Logs
      (t.recorded (t.dispatched env now ps r)) := by
    refine ⟨h.root, h.options, h.indexers, ?_, hd.facts, h.closed, ?_⟩
    · unfold recorded
      rw [h.hashes, hd.tracked]
    · rw [recorded_dispatched, hashes_closed_settled]
      exact h.isOpen
  rw [processChunk_eq_dispatched h.isOpen, processChunk_eq_dispatched (h.hashes ▸ h.isOpen),
    hd.dropped, hd.report]
  split
  · exact ⟨_, _, _, rfl, rfl, hrecorded⟩
  · exact hrecorded.dispatchRemoval env _ _

theorem processChunks (env : Surroundings) (now : Timestamp) (cs : List (List Path))
    (h : s.Logs t) (r : ScanReport) :
    SameAnswer (Scanner.processChunks env now cs s r) (Scanner.processChunks env now cs t r) := by
  induction cs generalizing s t r with
  | nil => exact ⟨_, _, _, rfl, rfl, h⟩
  | cons c cs ih =>
    obtain ⟨s₁, t₁, answer, hs, ht, hlogs⟩ := h.processChunk env now c r
    rw [Scanner.processChunks, Scanner.processChunks, hs, ht]
    cases answer with
    | ok r₁ => exact ih hlogs r₁
    | error e => exact ⟨_, _, _, rfl, rfl, hlogs⟩

theorem process (h : s.Logs t) (env : Surroundings) (now : Timestamp) (ps : List Path)
    (r : ScanReport) : SameAnswer (s.process env now ps r) (t.process env now ps r) := by
  unfold Scanner.process
  rw [h.options]
  exact processChunks env now _ h r

theorem walk (h : s.Logs t) (files : FileTree) : t.walk files = s.walk files := by
  unfold Scanner.walk skipNames
  rw [h.root, h.options]

theorem synchronize (h : s.Logs t) (env : Surroundings) (now : Timestamp) :
    SameAnswer (s.synchronize env now) (t.synchronize env now) := by
  unfold Scanner.synchronize
  rw [h.hashes, h.walk]
  cases s.hashes.paths with
  | error e => exact ⟨_, _, _, rfl, rfl, h⟩
  | ok tracked =>
    dsimp only
    split
    · exact h.process env now _ _
    · obtain ⟨s₁, t₁, answer, hs, ht, hlogs⟩ :=
        h.dispatchRemoval env (goneFrom env.files tracked (s.walk env.files)) {}
      rw [hs, ht]
      cases answer with
      | ok r => exact hlogs.process env now _ r
      | error e => exact ⟨_, _, _, rfl, rfl, hlogs⟩

theorem clearAll (h : s.Logs t) (env : Surroundings) :
    SameAnswer (s.clearAll env) (t.clearAll env) := by
  obtain ⟨hfacts, hfailure⟩ := callUntilFailure_logged (fun i => i.clear env)
    (fun i => i.clear env) (fun _ _ => ⟨rfl, rfl⟩) s.indexers t.facts
  rw [h.facts, ← h.indexers] at hfacts hfailure
  unfold Scanner.clearAll
  obtain ⟨facts, failure, hs⟩ : ∃ f e,
    callUntilFailure (fun i => i.clear env) s.indexers s.facts = (f, e) := ⟨_, _, rfl⟩
  obtain ⟨facts', failure', ht⟩ : ∃ f e,
    callUntilFailure (fun i => i.clear env) t.indexers t.facts = (f, e) := ⟨_, _, rfl⟩
  rw [hs, ht] at hfacts hfailure
  rw [hs, ht]
  obtain rfl : failure' = failure := hfailure
  cases failure' with
  | some e =>
    exact ⟨_, _, _, rfl, rfl, ⟨h.root, h.options, h.indexers, h.hashes, hfacts, h.closed, h.isOpen⟩⟩
  | none =>
    rw [h.hashes, HashTable.clear_eq h.isOpen]
    exact ⟨_, _, _, rfl, rfl, ⟨h.root, h.options, h.indexers, rfl, hfacts, h.closed, rfl⟩⟩

theorem indexAll (h : s.Logs t) (m : Moment) (force : Bool) :
    SameAnswer (s.indexAll m force) (t.indexAll m force) := by
  unfold Scanner.indexAll
  rw [h.closed]
  split
  · exact ⟨_, _, _, rfl, rfl, h⟩
  · cases force with
    | false => exact h.synchronize _ _
    | true =>
      obtain ⟨s₁, t₁, answer, hs, ht, hlogs⟩ := h.clearAll ⟨m.files, .scanning true⟩
      simp only [if_true, hs, ht]
      cases answer with
      | ok r => exact hlogs.synchronize _ _
      | error e => exact ⟨_, _, _, rfl, rfl, hlogs⟩

theorem indexFiles (h : s.Logs t) (m : Moment) (ps : List Path) :
    SameAnswer (s.indexFiles m ps) (t.indexFiles m ps) := by
  have hrequested : t.requested ps = s.requested ps := by
    unfold Scanner.requested Scanner.resolve isIndexable skipNames
    rw [h.root, h.options]
  unfold Scanner.indexFiles
  rw [h.closed, hrequested]
  split
  · exact ⟨_, _, _, rfl, rfl, h⟩
  · exact h.process _ _ _ _

end Logs

/-- The calls with which a file is handed out. A file that cannot be parsed goes to no indexer. -/
def indexCalls (is : List (Indexer σ)) (file : Path × List UInt8) : List IndexCall :=
  match parsePath file.1 (Text.decodeLossy file.2) with
  | .ok tree =>
    (is.filter fun i => i.accepts file.1).map fun i =>
      ⟨i.id, file.1, tree, Text.decodeLossy file.2⟩
  | .error _ => []

section Log

variable {is : List (Indexer σ)} {t : Scanner (σ × List IndexCall)} {env : Surroundings}
  {V : Shelf (σ × List IndexCall)} {W : List (Scribe V)}

theorem log_callEach
    {call : Indexer (σ × List IndexCall) → σ × List IndexCall → Outcome (σ × List IndexCall)}
    (notes : Indexer σ → List IndexCall) (hcall : ∀ i f, (call i.logged f).1.2 = f.2 ++ notes i)
    (is : List (Indexer σ)) (facts : σ × List IndexCall) :
    (callEach call (is.map Indexer.logged) facts).1.2 = facts.2 ++ is.flatMap notes := by
  induction is generalizing facts with
  | nil => exact (List.append_nil _).symm
  | cons i is ih =>
    simp only [List.map_cons, callEach, ih, hcall, List.flatMap_cons, List.append_assoc]

theorem log_settle (ht : t.indexers = is.map Indexer.logged) (now : Timestamp) (p : Path)
    (bytes : List UInt8) :
    (settle env now t (changedTo p bytes)).facts.2 = t.facts.2 ++ indexCalls is (p, bytes) := by
  have haccepting : t.indexers.filter (fun i => i.accepts p) =
      (is.filter fun i => i.accepts p).map Indexer.logged := by
    rw [ht, List.filter_map]
    rfl
  change (t.offer env p (Text.decodeLossy bytes) (parsePath p (Text.decodeLossy bytes))
    t.facts).1.2 = _
  unfold offer indexCalls
  rw [haccepting]
  cases parsePath p (Text.decodeLossy bytes) with
  | ok tree =>
    refine (log_callEach (fun i => [⟨i.id, p, tree, Text.decodeLossy bytes⟩])
      (fun _ _ => rfl) _ _).trans ?_
    rw [← List.map_eq_flatMap]
  | error e =>
    refine (log_callEach (fun _ => []) (fun _ f => (List.append_nil f.2).symm) _ _).trans ?_
    simp

theorem log_discard (ht : t.indexers = is.map Indexer.logged) (ps : List Path) :
    (t.discard env ps).facts.2 = t.facts.2 := by
  change (callEach _ t.indexers t.facts).1.2 = _
  rw [ht]
  refine (log_callEach (fun _ => []) (fun _ f => (List.append_nil f.2).symm) _ _).trans ?_
  simp

theorem log_trimmed (ht : t.indexers = is.map Indexer.logged) :
    (t.trimmed env).facts.2 = t.facts.2 := by
  unfold trimmed
  split
  · rfl
  · exact log_discard ht _

theorem log_callUntilFailure (env : Surroundings) (is : List (Indexer σ))
    (facts : σ × List IndexCall) :
    (callUntilFailure (fun i => i.clear env) (is.map Indexer.logged) facts).1.2 = facts.2 := by
  induction is generalizing facts with
  | nil => rfl
  | cons i is ih =>
    rw [List.map_cons, callUntilFailure]
    split
    · next facts' hcall =>
      have hlog : facts'.2 = facts.2 := (congrArg (fun o => o.1.2) hcall).symm
      rw [ih, hlog]
    · next facts' e hcall => exact (congrArg (fun o => o.1.2) hcall).symm

theorem log_clearAll (ht : t.indexers = is.map Indexer.logged) :
    (t.clearAll env).1.facts.2 = t.facts.2 := by
  have hlog := log_callUntilFailure env is t.facts
  rw [← ht] at hlog
  unfold clearAll
  split
  · next facts e hcall =>
    rw [hcall] at hlog
    exact hlog
  · next facts hcall =>
    rw [hcall] at hlog
    split <;> exact hlog

theorem Employs.log_foldl_settle (h : t.Employs W) (env : Surroundings) (now : Timestamp)
    (ps : List Path) {v : Scanner (σ × List IndexCall)} (hv : v.indexers = is.map Indexer.logged) :
    ((t.prepared env.files ps).foldl (Scanner.settle env now) v).facts.2 = v.facts.2 ++
      ((t.ledger V).entries t.options.maxFileSize env.files ps).flatMap (indexCalls is) := by
  unfold prepared Ledger.entries
  induction ps generalizing v with
  | nil => exact (List.append_nil _).symm
  | cons p ps ih =>
    have hstep := settle_prepare_eq (V := V) h.isOpen env now v p
    rw [List.map_cons, List.foldl_cons, hstep, List.filterMap_cons]
    cases (t.ledger V).due? t.options.maxFileSize env.files p with
    | none => exact ih hv
    | some bytes =>
      have hindexers := (sameProject_settle env now v (changedTo p bytes)).indexers.trans hv
      refine (ih hindexers).trans ?_
      rw [log_settle hv, List.append_assoc]
      rfl

theorem Employs.log_afterChunk (h : t.Employs W) (ht : t.indexers = is.map Indexer.logged)
    (now : Timestamp) (ps : List Path) :
    (t.afterChunk env now ps).facts.2 = t.facts.2 ++
      ((t.ledger V).entries t.options.maxFileSize env.files ps).flatMap (indexCalls is) := by
  have hlog := h.log_foldl_settle env now ps ht
  have hindexers : (t.settled env now ps).indexers = is.map Indexer.logged :=
    (sameProject_foldl_settle env now _ t).indexers.trans ht
  unfold Scanner.afterChunk
  split
  · exact hlog
  · rw [log_discard hindexers]
    exact hlog

theorem Employs.log_foldl_afterChunk (h : t.Employs W)
    (ht : t.indexers = is.map Indexer.logged) (env : Surroundings) (now : Timestamp)
    {cs : List (List Path)} (hnodup : cs.flatten.Nodup) :
    (cs.foldl (Scanner.afterChunk env now) t).facts.2 = t.facts.2 ++
      ((t.ledger V).entries t.options.maxFileSize env.files cs.flatten).flatMap
        (indexCalls is) := by
  induction cs generalizing t with
  | nil => exact (List.append_nil _).symm
  | cons c cs ih =>
    rw [List.flatten_cons, List.nodup_append] at hnodup
    obtain ⟨_, hrest, hapart⟩ := hnodup
    obtain ⟨hemploys, hledger⟩ := h.afterChunk env now c
    have hsame := sameProject_afterChunk env now t c
    -- A chunk leaves the records of the files in later chunks as they were.
    have hlater : ∀ q ∈ cs.flatten,
        ((t.ledger V).scan t.options.maxFileSize env.files W c).digest? q =
          (t.ledger V).digest? q := fun q hq =>
      Ledger.digest?_scan fun hc => hapart q hc q hq rfl
    rw [List.foldl_cons, ih hemploys (hsame.indexers.trans ht) hrest,
      h.log_afterChunk ht, hledger, hsame.options, Ledger.entries_congr hlater,
      List.append_assoc, ← List.flatMap_append, List.flatten_cons, Ledger.entries,
      Ledger.entries, Ledger.entries, List.filterMap_append]

theorem Employs.log_afterFiles (h : t.Employs W) (ht : t.indexers = is.map Indexer.logged)
    (now : Timestamp) {ps : List Path} (hnodup : ps.Nodup) :
    (t.afterFiles env now ps).facts.2 = t.facts.2 ++
      ((t.ledger V).entries t.options.maxFileSize env.files ps).flatMap (indexCalls is) := by
  rw [← flatten_chunksOf (t.options.chunkSize - 1) ps] at hnodup
  have hlog := h.log_foldl_afterChunk ht env now hnodup
  rw [flatten_chunksOf] at hlog
  exact hlog

end Log
end Scanner
end ProjectIndex
