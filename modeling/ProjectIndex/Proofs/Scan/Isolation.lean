import ProjectIndex.Proofs.Engine.Scribes
import ProjectIndex.Proofs.Scan.Convergence
import ProjectIndex.Proofs.Scan.Ledger
import ProjectIndex.Proofs.Scan.Refusal

/-!
What an indexer stores does not depend on its siblings. Where a sibling fails, a file is marked and
handed out again, so that two runs with other siblings make other calls. But a file that is recorded
with a digest is stored as that content left it, and to store the same content again changes no row.
So the stores of an indexer stay the same in both runs, row by row.
-/
namespace ProjectIndex

variable {σ : Type} {V : Shelf σ}

/-- An indexer whose calls leave the stores of a shelf alone. -/
structure Shelf.Spares (V : Shelf σ) (j : Indexer σ) : Prop where
  index : ∀ env p tree src s k, V.store k (j.index env p tree src s).1 = V.store k s
  removed : ∀ env ps s k, V.store k (j.removed env ps s).1 = V.store k s

def ScanCall.Retains : ScanCall → Prop
  | .indexAll force => force = false
  | .clearHashes => False
  | _ => True

namespace Scribe

variable {w : Scribe V} {files : FileTree} {p q : Path} {src : Source} {k : V.Slot}
  {st : FactStore (V.Fact k)}

structure Steady (w : Scribe V) : Prop where
  owns : ∀ k, w.owns k = true
  saves : ∀ files files' p src k, w.saves files p src k = w.saves files' p src k

def Holds (w : Scribe V) (files : FileTree) (p : Path) (src : Source) (k : V.Slot)
    (st : FactStore (V.Fact k)) : Prop :=
  match parsePath p src with
  | .ok _ => ∀ facts, w.saves files p src k = some facts →
      Rows.ofFile p st.rows = Rows.ofFacts p facts
  | .error _ => Rows.ofFile p st.rows = []

theorem Steady.holds_iff (hw : w.Steady) (files files' : FileTree) :
    w.Holds files p src k st ↔ w.Holds files' p src k st := by
  unfold Holds
  rw [hw.saves files files']

theorem Holds.congr {st' : FactStore (V.Fact k)} (h : w.Holds files p src k st)
    (hrows : Rows.ofFile p st'.rows = Rows.ofFile p st.rows) : w.Holds files p src k st' := by
  unfold Holds at h ⊢
  rwa [hrows]

theorem ofFile_without (st : FactStore (V.Fact k)) (ps : List Path) (q : Path) :
    Rows.ofFile q (st.without ps).rows = if q ∈ ps then [] else Rows.ofFile q st.rows :=
  Rows.ofFile_deleteFiles q st.rows ps

theorem ofFile_write_of_ne (w : Scribe V) (files : FileTree) (src : Source) (h : q ≠ p) :
    Rows.ofFile q (w.write files p src k st).rows = Rows.ofFile q st.rows := by
  unfold write
  split
  · split
    · cases w.saves files p src k with
      | none => rfl
      | some facts => exact Rows.ofFile_saveFile_of_ne h st.rows facts
    · rw [ofFile_without, if_neg fun hq => h (List.mem_singleton.1 hq)]
  · rfl

theorem Steady.holds_write (hw : w.Steady) (files : FileTree) (p : Path) (src : Source) (k : V.Slot)
    (st : FactStore (V.Fact k)) : w.Holds files p src k (w.write files p src k st) := by
  unfold Holds write
  rw [if_pos (hw.owns k)]
  cases parsePath p src with
  | ok tree =>
    intro facts hfacts
    rw [hfacts]
    exact Rows.ofFile_saveFile st.rows p facts
  | error e => exact (ofFile_without st [p] p).trans (if_pos (List.mem_singleton_self p))

theorem Holds.write_eq (h : w.Holds files p src k st) : w.write files p src k st = st := by
  unfold Holds at h
  unfold write
  split
  · cases htree : parsePath p src with
    | ok tree =>
      rw [htree] at h
      dsimp only
      cases hsaves : w.saves files p src k with
      | none => rfl
      | some facts =>
        have hrows := Rows.saveFile_of_held (h facts hsaves)
        rw [FactStore.taking, hrows]
    | error e =>
      rw [htree] at h
      have hrows : ∀ r ∈ st.rows, r.file ∈ [p] ↔ r.file ∈ ([] : List Path) := by
        intro r hr
        refine iff_of_false (fun hp => ?_) List.not_mem_nil
        have hmem : r ∈ Rows.ofFile p st.rows :=
          List.mem_filter.2 ⟨hr, by simpa using List.mem_singleton.1 hp⟩
        rw [h] at hmem
        exact absurd hmem List.not_mem_nil
      dsimp only
      rw [FactStore.without_congr hrows, FactStore.without_nil]
  · rfl

end Scribe

namespace Scanner

theorem callEach_append (call : Indexer σ → σ → Outcome σ) (is js : List (Indexer σ)) (facts : σ) :
    (callEach call (is ++ js) facts).1 = (callEach call js (callEach call is facts).1).1 := by
  induction is generalizing facts with
  | nil => rfl
  | cons i is ih => exact ih (call i facts).1

/-- Among the indexers of a scanner is this scribe, and the others leave its stores alone. -/
def Registers (s : Scanner σ) (w : Scribe V) : Prop :=
  ∃ front behind, s.indexers = front ++ w.indexer :: behind ∧
    ∀ j ∈ front ++ behind, V.Spares j

variable {w : Scribe V} {s t : Scanner σ}

theorem store_callEach {front own behind : List (Indexer σ)} {call : Indexer σ → σ → Outcome σ}
    (act : (k : V.Slot) → FactStore (V.Fact k) → FactStore (V.Fact k))
    (hspares : ∀ j ∈ front ++ behind, ∀ s k, V.store k (call j s).1 = V.store k s)
    (hown : ∀ s, V.IsOpen s → ∀ k, V.store k (callEach call own s).1 = act k (V.store k s))
    {facts : σ} (hopen : V.IsOpen facts) (k : V.Slot) :
    V.store k (callEach call (front ++ own ++ behind) facts).1 = act k (V.store k facts) := by
  have hfront : ∀ k, V.store k (callEach call front facts).1 = V.store k facts := fun k =>
    @callEach_keeps σ _ (V.store k) call front
      (fun j hj s => hspares j (List.mem_append_left _ hj) s k) facts
  have hbehind : ∀ s, V.store k (callEach call behind s).1 = V.store k s :=
    @callEach_keeps σ _ (V.store k) call behind
      fun j hj s => hspares j (List.mem_append_right _ hj) s k
  have hopen' : V.IsOpen (callEach call front facts).1 := fun k => by
    rw [hfront k]
    exact hopen k
  rw [callEach_append, hbehind, callEach_append, hown _ hopen' k, hfront]

theorem Registers.store_offer (h : s.Registers w) (env : Surroundings) (p : Path) (src : Source)
    {facts : σ} (hopen : V.IsOpen facts) (k : V.Slot) :
    V.store k (s.offer env p src (parsePath p src) facts).1 =
      if w.indexer.accepts p then w.write env.files p src k (V.store k facts)
      else V.store k facts := by
  obtain ⟨front, behind, hindexers, hspares⟩ := h
  -- Whichever indexers accept the file, those around the scribe leave its stores alone.
  have haccepting : s.indexers.filter (fun i => i.accepts p) =
      front.filter (fun i => i.accepts p) ++ [w.indexer].filter (fun i => i.accepts p) ++
        behind.filter fun i => i.accepts p := by
    rw [hindexers, ← List.filter_append, ← List.filter_append, List.append_assoc]
    rfl
  have hmem : ∀ j ∈ front.filter (fun i => i.accepts p) ++ behind.filter fun i => i.accepts p,
      V.Spares j := by
    intro j hj
    rw [← List.filter_append] at hj
    exact hspares j (List.mem_of_mem_filter hj)
  unfold offer
  rw [haccepting]
  cases htree : parsePath p src with
  | ok tree =>
    refine store_callEach
      (fun k st => if w.indexer.accepts p then w.write env.files p src k st else st)
      (fun j hj s k => (hmem j hj).index env p tree src s k) (fun s hs k => ?_) hopen k
    by_cases haccepts : w.indexer.accepts p = true
    · simp only [haccepts, List.filter_cons_of_pos, List.filter_nil, callEach, if_true]
      rw [w.index_store env p tree src s hs haccepts htree, Scribe.write, htree]
    · simp only [haccepts, Bool.false_eq_true, not_false_eq_true, List.filter_cons_of_neg,
        List.filter_nil, callEach, if_false]
  | error e =>
    refine store_callEach
      (fun k st => if w.indexer.accepts p then w.write env.files p src k st else st)
      (fun j hj s k => (hmem j hj).removed env [p] s k) (fun s hs k => ?_) hopen k
    by_cases haccepts : w.indexer.accepts p = true
    · simp only [haccepts, List.filter_cons_of_pos, List.filter_nil, callEach, if_true]
      rw [w.removed_store env [p] s hs, Scribe.write, htree]
    · simp only [haccepts, Bool.false_eq_true, not_false_eq_true, List.filter_cons_of_neg,
        List.filter_nil, callEach, if_false]

theorem Registers.store_removed (h : s.Registers w) (hw : w.Steady) (env : Surroundings)
    (ps : List Path) {facts : σ} (hopen : V.IsOpen facts) (k : V.Slot) :
    V.store k (callEach (fun i => i.removed env ps) s.indexers facts).1 =
      (V.store k facts).without ps := by
  obtain ⟨front, behind, hindexers, hspares⟩ := h
  have happend : s.indexers = front ++ [w.indexer] ++ behind := by
    rw [hindexers, List.append_assoc]
    rfl
  rw [happend]
  refine store_callEach (fun _ st => st.without ps)
    (fun j hj s k => (hspares j hj).removed env ps s k) (fun s hs k => ?_) hopen k
  exact (w.removed_store env ps s hs k).trans (if_pos (hw.owns k))

/-- Where a file is recorded with a digest, the scribe's stores hold what it writes for a content
with that digest. `found` tells the contents that a path has had. -/
structure Vouched (found : Path → List UInt8 → Prop) (w : Scribe V) (s : Scanner σ) : Prop where
  registers : s.Registers w
  isOpen : s.hashes.closed = false
  stores : V.IsOpen s.facts
  holds : ∀ p hash, s.hashes.digest? p = some hash → hash ≠ retryHash →
    ∃ bytes, found p bytes ∧ Digest.sha256 bytes = hash ∧ (w.indexer.accepts p = true →
      ∀ files k, w.Holds files p (Text.decodeLossy bytes) k (V.store k s.facts))

variable {found : Path → List UInt8 → Prop}

theorem Registers.store_settle (h : s.Registers w) (hopen : V.IsOpen s.facts) (env : Surroundings)
    (now : Timestamp) (p : Path) (bytes : List UInt8) (k : V.Slot) :
    V.store k (settle env now s (changedTo p bytes)).facts =
      if w.indexer.accepts p then
        w.write env.files p (Text.decodeLossy bytes) k (V.store k s.facts)
      else V.store k s.facts :=
  h.store_offer env p (Text.decodeLossy bytes) hopen k

theorem ofFile_store_settle (h : s.Registers w) (hopen : V.IsOpen s.facts) (env : Surroundings)
    (now : Timestamp) {p q : Path} (hq : q ≠ p) (bytes : List UInt8) (k : V.Slot) :
    Rows.ofFile q (V.store k (settle env now s (changedTo p bytes)).facts).rows =
      Rows.ofFile q (V.store k s.facts).rows := by
  rw [h.store_settle hopen]
  split
  · exact Scribe.ofFile_write_of_ne w env.files _ hq
  · rfl

theorem Vouched.settle (hw : w.Steady) (env : Surroundings) (now : Timestamp) {p : Path}
    {bytes : List UInt8} (hfound : found p bytes) (h : s.Vouched found w) :
    (settle env now s (changedTo p bytes)).Vouched found w := by
  have hstore := h.registers.store_settle h.stores env now p bytes
  refine ⟨h.registers, h.isOpen, fun k => ?_, fun q hash hq hdigest => ?_⟩
  · rw [hstore k]
    split
    · exact (w.closed_write env.files p _ k _).trans (h.stores k)
    · exact h.stores k
  · obtain ⟨f, hf, rfl⟩ := Option.map_eq_some_iff.1 hq
    rw [find?_settle] at hf
    by_cases hqp : q = p
    · subst hqp
      rw [if_pos rfl, Option.some.injEq] at hf
      subst hf
      dsimp only at hdigest ⊢
      split at hdigest
      · next hzero =>
        rw [if_pos hzero]
        refine ⟨bytes, hfound, rfl, fun haccepts files k => ?_⟩
        rw [hstore k, if_pos haccepts]
        exact (hw.holds_iff env.files files).1 (hw.holds_write env.files q _ k _)
      · exact absurd rfl hdigest
    · rw [if_neg hqp] at hf
      have hold : s.hashes.digest? q = some f.contentHash := by rw [HashTable.digest?, hf]; rfl
      obtain ⟨b, hb, hhash, hholds⟩ := h.holds q _ hold hdigest
      refine ⟨b, hb, hhash, fun haccepts files k => (hholds haccepts files k).congr ?_⟩
      exact ofFile_store_settle h.registers h.stores env now hqp bytes k

theorem Vouched.discard (hw : w.Steady) (env : Surroundings) (ps : List Path)
    (h : s.Vouched found w) : (s.discard env ps).Vouched found w := by
  have hstore := h.registers.store_removed hw env ps h.stores
  refine ⟨h.registers, h.isOpen, fun k => (congrArg FactStore.closed (hstore k)).trans (h.stores k),
    fun q hash hq hdigest => ?_⟩
  rw [Scanner.discard, HashTable.digest?_without] at hq
  by_cases hps : q ∈ ps
  · rw [if_pos hps] at hq
    cases hq
  · rw [if_neg hps] at hq
    obtain ⟨b, hb, hhash, hholds⟩ := h.holds q hash hq hdigest
    refine ⟨b, hb, hhash, fun haccepts files k => (hholds haccepts files k).congr ?_⟩
    exact (congrArg (fun st => Rows.ofFile q (FactStore.rows st)) (hstore k)).trans
      ((Scribe.ofFile_without _ ps q).trans (if_neg hps))

/-- Two scanners on one project that track the same files and agree on the scribe's stores. -/
structure Abreast (found : Path → List UInt8 → Prop) (w : Scribe V) (s t : Scanner σ) : Prop where
  root : t.root = s.root
  options : t.options = s.options
  closed : t.closed = s.closed
  left : s.Vouched found w
  right : t.Vouched found w
  tracked : ∀ p, (t.hashes.find? p).isSome = (s.hashes.find? p).isSome
  stores : ∀ k, V.store k t.facts = V.store k s.facts

namespace Abreast

theorem symm (h : s.Abreast found w t) : t.Abreast found w s :=
  ⟨h.root.symm, h.options.symm, h.closed.symm, h.right, h.left, fun p => (h.tracked p).symm,
    fun k => (h.stores k).symm⟩

theorem walk_eq (h : s.Abreast found w t) (files : FileTree) : t.walk files = s.walk files := by
  unfold walk skipNames
  rw [h.root, h.options]

theorem requested_eq (h : s.Abreast found w t) (ps : List Path) :
    t.requested ps = s.requested ps := by
  unfold requested resolve isIndexable skipNames
  rw [h.root, h.options]

theorem isSome_find?_settle (env : Surroundings) (now : Timestamp) (s : Scanner σ) (p : Path)
    (bytes : List UInt8) (q : Path) :
    ((settle env now s (changedTo p bytes)).hashes.find? q).isSome =
      if q = p then true else (s.hashes.find? q).isSome := by
  rw [find?_settle]
  split <;> rfl

theorem settle (hw : w.Steady) (env env' : Surroundings) (hfiles : env'.files = env.files)
    (now now' : Timestamp) {p : Path} {bytes : List UInt8} (hfound : found p bytes)
    (h : s.Abreast found w t) :
    (Scanner.settle env now s (changedTo p bytes)).Abreast found w
      (Scanner.settle env' now' t (changedTo p bytes)) where
  root := h.root
  options := h.options
  closed := h.closed
  left := h.left.settle hw env now hfound
  right := h.right.settle hw env' now' hfound
  tracked q := by rw [isSome_find?_settle, isSome_find?_settle, h.tracked q]
  stores k := by
    rw [h.left.registers.store_settle h.left.stores, h.right.registers.store_settle h.right.stores,
      h.stores k, hfiles]

/-- A file that is tracked, and of which the scribe's stores hold what it writes for this
content. -/
def Stands (w : Scribe V) (s : Scanner σ) (p : Path) (bytes : List UInt8) : Prop :=
  (s.hashes.find? p).isSome = true ∧ (w.indexer.accepts p = true →
    ∀ files k, w.Holds files p (Text.decodeLossy bytes) k (V.store k s.facts))

theorem settle_left (hw : w.Steady) (env : Surroundings) (now : Timestamp) {p : Path}
    {bytes : List UInt8} (hfound : found p bytes) (hstands : Stands w s p bytes)
    (h : s.Abreast found w t) :
    (Scanner.settle env now s (changedTo p bytes)).Abreast found w t where
  root := h.root
  options := h.options
  closed := h.closed
  left := h.left.settle hw env now hfound
  right := h.right
  tracked q := by
    rw [isSome_find?_settle, h.tracked q]
    split
    · next hqp => rw [hqp, hstands.1]
    · rfl
  stores k := by
    rw [h.left.registers.store_settle h.left.stores, h.stores k]
    split
    · next haccepts => exact ((hstands.2 haccepts env.files k).write_eq).symm
    · rfl

theorem Stands.settle (hw : w.Steady) (env : Surroundings) (now : Timestamp) {p q : Path}
    {bytes bytes' : List UInt8} (h : s.Vouched found w) (hsame : q = p → bytes' = bytes)
    (hstands : Stands w s q bytes') :
    Stands w (Scanner.settle env now s (changedTo p bytes)) q bytes' := by
  refine ⟨?_, fun haccepts files k => ?_⟩
  · rw [isSome_find?_settle, hstands.1, ite_self]
  · by_cases hqp : q = p
    · subst hqp
      obtain rfl := hsame rfl
      rw [h.registers.store_settle h.stores, if_pos haccepts]
      exact (hw.holds_iff env.files files).1 (hw.holds_write env.files q _ k _)
    · refine (hstands.2 haccepts files k).congr ?_
      exact ofFile_store_settle h.registers h.stores env now hqp bytes k

theorem discard (hw : w.Steady) (env env' : Surroundings) {ps qs : List Path}
    (hsame : ∀ p, p ∈ ps ↔ p ∈ qs) (h : s.Abreast found w t) :
    (s.discard env ps).Abreast found w (t.discard env' qs) where
  root := h.root
  options := h.options
  closed := h.closed
  left := h.left.discard hw env ps
  right := h.right.discard hw env' qs
  tracked q := by
    simp only [Scanner.discard, HashTable.find?_without, hsame q]
    split
    · rfl
    · exact h.tracked q
  stores k := by
    have hleft := h.left.registers.store_removed hw env ps h.left.stores k
    have hright := h.right.registers.store_removed hw env' qs h.right.stores k
    simp only [Scanner.discard]
    rw [hleft, hright, h.stores k]
    exact FactStore.without_congr fun r _ => (hsame r.file).symm

theorem Stands.of_abreast {p : Path} {bytes : List UInt8} (h : s.Abreast found w t)
    (hstands : Stands w s p bytes) : Stands w t p bytes := by
  refine ⟨(h.tracked p).trans hstands.1, fun haccepts files k => ?_⟩
  rw [h.stores k]
  exact hstands.2 haccepts files k

def OneSided (V : Shelf σ) (s t : Scanner σ) (files : FileTree) (p : Path) (bytes : List UInt8) :
    Prop :=
  (s.ledger V).due? s.options.maxFileSize files p = some bytes ∧
      (t.ledger V).due? t.options.maxFileSize files p = none ∨
    (s.ledger V).due? s.options.maxFileSize files p = none ∧
      (t.ledger V).due? t.options.maxFileSize files p = some bytes

theorem OneSided.find {files : FileTree} {p : Path} {bytes : List UInt8}
    (h : OneSided V s t files p bytes) : files.find p = .ok (.file bytes) := by
  rcases h with ⟨hdue, _⟩ | ⟨_, hdue⟩
  · exact (Ledger.find_of_due? hdue).1
  · exact (Ledger.find_of_due? hdue).1

section Run

variable (hw : w.Steady) {env env' : Surroundings} (hfiles : env'.files = env.files)
  (hfound : ∀ p bytes, env.files.find p = .ok (.file bytes) → found p bytes)
  (hdigests : ∀ p bytes bytes', found p bytes → found p bytes' →
    Digest.sha256 bytes = Digest.sha256 bytes' → bytes = bytes')

include hfound hdigests

/-- What only the other run hands out is recorded here with the digest of its content. -/
theorem stands_of_due (h : s.Abreast found w t) {p : Path} {bytes : List UInt8}
    (hdue : (t.ledger V).due? t.options.maxFileSize env.files p = some bytes)
    (hrests : (s.ledger V).due? s.options.maxFileSize env.files p = none) :
    Stands w s p bytes := by
  obtain ⟨hfind, hsmall, _⟩ := Ledger.find_of_due? hdue
  rw [h.options] at hsmall
  have hrecord : s.hashes.digest? p = some (Digest.sha256 bytes) := by
    by_contra hdiffers
    rw [← digest?_ledger (V := V)] at hdiffers
    simp [Ledger.due?, hfind, Nat.not_lt.2 hsmall, hdiffers] at hrests
  obtain ⟨b, hb, hhash, hholds⟩ :=
    h.left.holds p _ hrecord (Digest.sha256_ne_retryHash bytes)
  obtain rfl := hdigests p b bytes hb (hfound p bytes hfind) hhash
  obtain ⟨f, hf, _⟩ := Option.map_eq_some_iff.1 hrecord
  exact ⟨by rw [hf]; rfl, hholds⟩

theorem stands_of_oneSided (h : s.Abreast found w t) {p : Path} {bytes : List UInt8}
    (hdue : OneSided V s t env.files p bytes) : Stands w s p bytes := by
  rcases hdue with ⟨hdue, hrests⟩ | ⟨hrests, hdue⟩
  · exact (stands_of_due hfound hdigests h.symm hdue hrests).of_abreast h.symm
  · exact stands_of_due hfound hdigests h hdue hrests

include hw hfiles

omit hdigests in
theorem foldl_settle (now now' : Timestamp) (ps : List Path) (h : s.Abreast found w t)
    {v u : Scanner σ} (hvu : v.Abreast found w u)
    (hstands : ∀ p bytes, OneSided V s t env.files p bytes → Stands w v p bytes) :
    ((s.prepared env.files ps).foldl (Scanner.settle env now) v).Abreast found w
      ((t.prepared env'.files ps).foldl (Scanner.settle env' now') u) := by
  unfold prepared
  induction ps generalizing v u with
  | nil => exact hvu
  | cons p ps ih =>
    have hleft := settle_prepare_eq (V := V) h.left.isOpen env now v p
    have hright := settle_prepare_eq (V := V) h.right.isOpen env' now' u p
    rw [hfiles] at hright
    rw [List.map_cons, List.map_cons, List.foldl_cons, List.foldl_cons, hfiles, hleft, hright]
    rw [hfiles] at ih
    have hsettled : ∀ {bytes : List UInt8}, env.files.find p = .ok (.file bytes) →
        ∀ q bytes', OneSided V s t env.files q bytes' →
          Stands w (Scanner.settle env now v (changedTo p bytes)) q bytes' := by
      intro bytes hfind q bytes' hdue
      refine (hstands q bytes' hdue).settle hw env now hvu.left fun hqp => ?_
      have hfind' := hdue.find
      rw [hqp, hfind] at hfind'
      cases hfind'
      rfl
    cases hs : (s.ledger V).due? s.options.maxFileSize env.files p with
    | none =>
      cases ht : (t.ledger V).due? t.options.maxFileSize env.files p with
      | none => exact ih hvu hstands
      | some bytes =>
        have hfind := (Ledger.find_of_due? ht).1
        have hstands' := (hstands p bytes (.inr ⟨hs, ht⟩)).of_abreast hvu
        exact ih (hvu.symm.settle_left hw env' now' (hfound p bytes hfind) hstands').symm
          hstands
    | some bytes =>
      have hfind := (Ledger.find_of_due? hs).1
      cases ht : (t.ledger V).due? t.options.maxFileSize env.files p with
      | none =>
        have hstands' := hstands p bytes (.inl ⟨hs, ht⟩)
        exact ih (hvu.settle_left hw env now (hfound p bytes hfind) hstands')
          (hsettled hfind)
      | some bytes' =>
        have hfind' := (Ledger.find_of_due? ht).1
        rw [hfind] at hfind'
        cases hfind'
        exact ih (hvu.settle hw env env' hfiles now now' (hfound p bytes hfind))
          (hsettled hfind)

theorem settled (now now' : Timestamp) (ps : List Path) (h : s.Abreast found w t) :
    (s.settled env now ps).Abreast found w (t.settled env' now' ps) :=
  -- Files are compared with the records from the start of the chunk; what is due on one side only
  -- stands there, and goes on to stand whatever is settled.
  foldl_settle hw hfiles hfound now now' ps h h fun _ _ =>
    stands_of_oneSided hfound hdigests h

omit hfound hdigests hw hfiles in
theorem leaving_eq (h : s.Abreast found w t) (files : FileTree) (ps : List Path) :
    t.leaving files ps = s.leaving files ps := by
  rw [Scanner.leaving_eq (V := V), Scanner.leaving_eq (V := V)]
  apply List.filter_congr
  intro p _
  have hrecord : ((t.ledger V).digest? p).isSome = ((s.ledger V).digest? p).isSome := by
    rw [digest?_ledger, digest?_ledger, HashTable.digest?, HashTable.digest?, Option.isSome_map,
      Option.isSome_map]
    exact h.tracked p
  unfold Ledger.leaves
  rw [hrecord, h.options]

theorem afterChunk (now now' : Timestamp) (ps : List Path) (h : s.Abreast found w t) :
    (s.afterChunk env now ps).Abreast found w (t.afterChunk env' now' ps) := by
  have hsettled := settled hw hfiles hfound hdigests now now' ps h
  unfold Scanner.afterChunk
  rw [hfiles, h.leaving_eq]
  split
  · exact hsettled
  · exact hsettled.discard hw env env' fun _ => Iff.rfl

theorem afterFiles (now now' : Timestamp) (ps : List Path) (h : s.Abreast found w t) :
    (s.afterFiles env now ps).Abreast found w (t.afterFiles env' now' ps) := by
  unfold Scanner.afterFiles
  rw [h.options]
  generalize chunksOf (s.options.chunkSize - 1) ps = cs
  induction cs generalizing s t with
  | nil => exact h
  | cons c cs ih =>
    rw [List.foldl_cons, List.foldl_cons]
    exact ih (afterChunk hw hfiles hfound hdigests now now' c h)

omit hfound hdigests in
theorem trimmed (h : s.Abreast found w t) : (s.trimmed env).Abreast found w (t.trimmed env') := by
  have hgone : ∀ p, p ∈ s.gone env.files ↔ p ∈ t.gone env'.files := by
    intro p
    rw [hfiles, mem_gone_iff, mem_gone_iff, h.tracked p, h.walk_eq]
  unfold Scanner.trimmed
  by_cases hempty : s.gone env.files = []
  · have hempty' : t.gone env'.files = [] :=
      List.eq_nil_iff_forall_not_mem.2 fun p hp => by
        rw [← hgone, hempty] at hp
        exact absurd hp List.not_mem_nil
    rw [hempty, hempty']
    exact h
  · have hempty' : t.gone env'.files ≠ [] := fun hnil =>
      hempty (List.eq_nil_iff_forall_not_mem.2 fun p hp => by
        rw [hgone, hnil] at hp
        exact absurd hp List.not_mem_nil)
    rw [if_neg (by simpa using hempty), if_neg (by simpa using hempty')]
    exact h.discard hw env env' hgone

theorem synchronize (now now' : Timestamp) (h : s.Abreast found w t) :
    (s.synchronize env now).1.Abreast found w (t.synchronize env' now').1 := by
  obtain ⟨r, hsync, _⟩ := synchronize_eq h.left.isOpen env now
  obtain ⟨r', hsync', _⟩ := synchronize_eq h.right.isOpen env' now'
  rw [hsync, hsync', hfiles, h.walk_eq]
  exact afterFiles hw hfiles hfound hdigests now now' _ (trimmed hw hfiles h)

end Run

theorem call (hw : w.Steady) {m m' : Moment} (hfiles : m'.files = m.files)
    (hfound : ∀ p bytes, m.files.find p = .ok (.file bytes) → found p bytes)
    (hdigests : ∀ p bytes bytes', found p bytes → found p bytes' →
      Digest.sha256 bytes = Digest.sha256 bytes' → bytes = bytes')
    {c : ScanCall} (hc : c.Retains) (h : s.Abreast found w t) :
    (s.call m c).Abreast found w (t.call m' c) := by
  cases c with
  | clearHashes => exact absurd hc id
  | indexAll force =>
    cases hc
    simp only [Scanner.call, indexAll, h.closed]
    split
    · exact h
    · exact synchronize hw hfiles hfound hdigests m.now m'.now h
  | indexFiles ps =>
    simp only [Scanner.call, indexFiles, h.closed]
    split
    · exact h
    · obtain ⟨r, hprocess, _⟩ := process_eq h.left.isOpen ⟨m.files, .scanning false⟩ m.now
        (s.requested ps) {}
      obtain ⟨r', hprocess', _⟩ := process_eq h.right.isOpen ⟨m'.files, .scanning false⟩ m'.now
        (s.requested ps) {}
      rw [h.requested_eq, hprocess, hprocess']
      exact afterFiles hw hfiles hfound hdigests m.now m'.now _ h
  | removeFiles ps =>
    have hresolve : ps.map t.resolve = ps.map s.resolve := by
      unfold resolve
      rw [h.root]
    simp only [Scanner.call, removeFiles, h.closed]
    split
    · exact h
    · rw [dispatchRemoval_eq h.left.isOpen, dispatchRemoval_eq h.right.isOpen, hresolve]
      exact h.discard hw _ _ fun _ => Iff.rfl

def SameCalls : List (Moment × ScanCall) → List (Moment × ScanCall) → Prop :=
  List.Forall₂ fun c d => d.1.files = c.1.files ∧ d.2 = c.2

theorem after (hw : w.Steady) {history history' : List (Moment × ScanCall)}
    (hsame : SameCalls history history')
    (hfound : ∀ c ∈ history, ∀ p bytes, c.1.files.find p = .ok (.file bytes) → found p bytes)
    (hdigests : ∀ p bytes bytes', found p bytes → found p bytes' →
      Digest.sha256 bytes = Digest.sha256 bytes' → bytes = bytes')
    (hretains : ∀ c ∈ history, c.2.Retains) (h : s.Abreast found w t) :
    (s.after history).Abreast found w (t.after history') := by
  induction hsame generalizing s t with
  | nil => exact h
  | @cons c d history history' hcd _ ih =>
    obtain ⟨m, call⟩ := c
    obtain ⟨m', call'⟩ := d
    obtain ⟨hfiles, hcall⟩ := hcd
    dsimp only at hfiles hcall
    subst hcall
    have hstep := h.call hw hfiles (hfound _ (List.mem_cons_self ..)) hdigests
      (hretains _ (List.mem_cons_self ..))
    exact ih (fun e he => hfound e (List.mem_cons_of_mem _ he))
      (fun e he => hretains e (List.mem_cons_of_mem _ he)) hstep

end Abreast

theorem vouched_of_open? {files : FileTree} {root : Path} {options : ScanOptions}
    {front behind : List (Indexer σ)} {facts : σ}
    (h : open? files root options (front ++ w.indexer :: behind) .new facts = .ok s)
    (hspares : ∀ j ∈ front ++ behind, V.Spares j) (hopen : V.IsOpen facts) :
    s.Vouched found w := by
  obtain ⟨canonical, _, rfl⟩ := open?_eq_ok h
  refine ⟨⟨front, behind, rfl, hspares⟩, rfl, hopen, fun p hash hp => ?_⟩
  exact absurd hp (by simp [HashTable.digest?, HashTable.reopen, HashTable.new, HashTable.find?])

/-- What a scribe keeps is the same after the same calls on the same files, whatever indexers stand
beside it and wherever they fail. -/
theorem siblings_do_not_matter (w : Scribe V) (hw : w.Steady)
    {front behind front' behind' : List (Indexer σ)} (hspares : ∀ j ∈ front ++ behind, V.Spares j)
    (hspares' : ∀ j ∈ front' ++ behind', V.Spares j) {files : FileTree} {root : Path}
    {options : ScanOptions} {facts facts' : σ} {s t : Scanner σ}
    (hs : open? files root options (front ++ w.indexer :: behind) .new facts = .ok s)
    (ht : open? files root options (front' ++ w.indexer :: behind') .new facts' = .ok t)
    (hopen : V.IsOpen facts) (hfacts : ∀ k, V.store k facts' = V.store k facts)
    {history history' : List (Moment × ScanCall)} (hsame : Abreast.SameCalls history history')
    (hretains : ∀ c ∈ history, c.2.Retains) (hdigests : Registry.NoCollision history) (k : V.Slot) :
    V.store k (t.after history').facts = V.store k (s.after history).facts := by
  have hopen' : V.IsOpen facts' := fun k => by
    rw [hfacts k]
    exact hopen k
  have hleft : s.Vouched (Registry.contentsIn history) w := vouched_of_open? hs hspares hopen
  have hright : t.Vouched (Registry.contentsIn history) w := vouched_of_open? ht hspares' hopen'
  have hstart : s.Abreast (Registry.contentsIn history) w t := by
    obtain ⟨canonical, hcanonical, rfl⟩ := open?_eq_ok hs
    obtain ⟨canonical', hcanonical', rfl⟩ := open?_eq_ok ht
    rw [hcanonical] at hcanonical'
    cases hcanonical'
    exact ⟨rfl, rfl, rfl, hleft, hright, fun _ => rfl, hfacts⟩
  have hend := hstart.after hw hsame (fun c hc p bytes hfind => ⟨c, hc, hfind⟩) hdigests hretains
  exact hend.stores k

end Scanner

def Shelf.ofFirst (V : Shelf σ) (τ : Type) : Shelf (σ × τ) where
  Slot := V.Slot
  Fact := V.Fact
  store k s := V.store k s.1

def Scribe.ofFirst (w : Scribe V) (τ : Type) : Scribe (V.ofFirst τ) where
  indexer := w.indexer.onPart Prod.fst fun a s => (a, s.2)
  owns := w.owns
  saves := w.saves
  fails := w.fails
  index_store env p tree src s := w.index_store env p tree src s.1
  index_fails env p tree src s := w.index_fails env p tree src s.1
  removed_store env ps s := w.removed_store env ps s.1
  removed_ok env ps s := w.removed_ok env ps s.1

namespace Scanner

open Registry (projectWith manifestPath manifestHistory)

/-- The indexer of extensions, on a store of its own beside that of another indexer. -/
def sideBySide (j : Indexer (FactStore Extension)) :
    Scanner (FactStore Extension × FactStore Extension) :=
  ⟨.ofString "/p", {}, [Extensions.indexer.onPart Prod.fst fun a s => (a, s.2),
    j.onPart Prod.snd fun b s => (s.1, b)], .new, (.new "extensions", .new "apps"), false⟩

/-- A manifest is scanned twice, loses its app, and gets it back. A sibling that refuses every full
scan makes three of these calls hand the manifest out, where else two do. -/
theorem siblings_do_not_matter_manifest :
    let history := (⟨projectWith "<manifest><meta><name>A</name></meta></manifest>", ⟨0, 0⟩⟩,
      .indexAll false) :: manifestHistory
    let s := sideBySide Extensions.indexer
    let t := sideBySide (Extensions.indexer.refusing fun env => env.state == .scanning true)
    (s.after (history.take 1)).hashes.digest? manifestPath ≠ some retryHash ∧
      (t.after (history.take 1)).hashes.digest? manifestPath = some retryHash ∧
      (s.after history).facts.1.allKeys = .ok ["A"] ∧
      (t.after history).facts.1 = (s.after history).facts.1 := by
  intro history s t
  let w := (FactStore.scribe "extensions" Extensions.accepts
    fun _ p tree src => .ok (Extensions.extract tree src p)).ofFirst (FactStore Extension)
  have hw : w.Steady := ⟨fun _ => rfl, fun _ _ _ _ _ => rfl⟩
  have hspares : ∀ j : Indexer (FactStore Extension),
      ∀ i ∈ [] ++ [j.onPart Prod.snd fun b (s : FactStore Extension × FactStore Extension) =>
        (s.1, b)], ((FactStore.shelf Extension).ofFirst (FactStore Extension)).Spares i := by
    intro j i hi
    rw [List.nil_append, List.mem_singleton] at hi
    subst hi
    exact ⟨fun _ _ _ _ _ _ => rfl, fun _ _ _ _ => rfl⟩
  have hdigests : Registry.NoCollision history := by
    have hold : ∀ p bytes, Registry.contentsIn history p bytes →
        Registry.contentsIn manifestHistory p bytes := by
      rintro p bytes ⟨c, hc, hfind⟩
      rcases List.mem_cons.1 hc with rfl | hc
      · exact ⟨_, List.mem_cons_self .., hfind⟩
      · exact ⟨c, hc, hfind⟩
    exact fun p bytes bytes' h h' =>
      Registry.manifestHistory_noCollision p bytes bytes' (hold p bytes h) (hold p bytes' h')
  have hretains : ∀ c ∈ history, c.2.Retains := by
    simp only [history, manifestHistory, List.forall_mem_cons]
    exact ⟨rfl, rfl, trivial, rfl, nofun⟩
  have hsame : Abreast.SameCalls history history := List.forall₂_same.2 fun _ _ => ⟨rfl, rfl⟩
  have hopened : ∀ j : Indexer (FactStore Extension), open? (projectWith "") (.ofString "/p") {}
      ([] ++ w.indexer :: [j.onPart Prod.snd fun b s => (s.1, b)]) .new
      (.new "extensions", .new "apps") = .ok (sideBySide j) := fun _ => rfl
  have hstores := siblings_do_not_matter w hw (hspares _) (hspares _) (hopened Extensions.indexer)
    (hopened (Extensions.indexer.refusing fun env => env.state == .scanning true)) (fun _ => rfl)
    (fun _ => rfl) hsame hretains hdigests ()
  -- Rewritten for any state, lest comparing the two runs evaluates them.
  have hfirst : ∀ facts : FactStore Extension × FactStore Extension,
      ((FactStore.shelf Extension).ofFirst (FactStore Extension)).store () facts = facts.1 :=
    fun _ => rfl
  rw [hfirst, hfirst] at hstores
  have hruns : (s.after (history.take 1)).hashes.digest? manifestPath ≠ some retryHash ∧
      (t.after (history.take 1)).hashes.digest? manifestPath = some retryHash ∧
      (s.after history).facts.1.allKeys = .ok ["A"] := by
    decide +kernel
  exact ⟨hruns.1, hruns.2.1, hruns.2.2, hstores⟩

end Scanner
end ProjectIndex
