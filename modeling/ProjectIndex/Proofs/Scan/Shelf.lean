import ProjectIndex.Proofs.Engine.Blank
import ProjectIndex.Proofs.Store.Interplay

/-!
Indexers as writers of stores. A shelf names the stores within a state; a scribe is an indexer whose
calls are saves to its stores and deletions from them, decided by the path, the source and the files
of the project. So a round of calls acts on every store by itself.
-/
namespace ProjectIndex

namespace FactStore

variable {α : Type} {p : Path} {ps qs : List Path}

def taking (s : FactStore α) (p : Path) : Option (FileFacts α) → FactStore α
  | some facts => { s with rows := Rows.saveFile s.rows p facts }
  | none => s

def without (s : FactStore α) (ps : List Path) : FactStore α :=
  { s with rows := Rows.deleteFiles s.rows ps }

theorem closed_taking (s : FactStore α) (p : Path) (facts : Option (FileFacts α)) :
    (s.taking p facts).closed = s.closed := by
  cases facts <;> rfl

theorem without_taking (hp : p ∉ ps) (s : FactStore α) (facts : Option (FileFacts α)) :
    (s.taking p facts).without ps = (s.without ps).taking p facts := by
  cases facts with
  | none => rfl
  | some facts =>
    simp only [without, taking]
    rw [Rows.deleteFiles_saveFile hp]

theorem without_without (s : FactStore α) (ps qs : List Path) :
    (s.without ps).without qs = s.without (ps ++ qs) := by
  simp only [without]
  rw [Rows.deleteFiles_deleteFiles]

theorem without_congr {s : FactStore α} (h : ∀ r ∈ s.rows, r.file ∈ ps ↔ r.file ∈ qs) :
    s.without ps = s.without qs := by
  simp only [without]
  rw [Rows.deleteFiles_congr h]

theorem without_nil (s : FactStore α) : s.without [] = s := by
  simp [without, Rows.deleteFiles]

theorem file_of_mem_taking {s : FactStore α} {facts : Option (FileFacts α)} {r : Row α}
    (h : r ∈ (s.taking p facts).rows) : r.file = p ∨ r ∈ s.rows := by
  cases facts with
  | none => exact .inr h
  | some facts =>
    by_cases hr : r.file = p
    · exact .inl hr
    · have hothers : (Rows.saveFile s.rows p facts).filter (fun r => r.file != p) =
          s.rows.filter fun r => r.file != p :=
        Rows.filter_others_saveFile (· != p) (by simp) s.rows facts
      have hmem : r ∈ (Rows.saveFile s.rows p facts).filter fun r => r.file != p :=
        List.mem_filter.2 ⟨h, by simpa using hr⟩
      rw [hothers] at hmem
      exact .inr (List.mem_of_mem_filter hmem)

end FactStore

structure Shelf (σ : Type) where
  Slot : Type
  Fact : Slot → Type
  store : (k : Slot) → σ → FactStore (Fact k)

def Shelf.IsOpen {σ : Type} (V : Shelf σ) (s : σ) : Prop := ∀ k, (V.store k s).closed = false

/-- An indexer that keeps its facts on a shelf. What it saves of a file, and whether it fails on it,
depends on the path, the source and the project. -/
structure Scribe {σ : Type} (V : Shelf σ) where
  indexer : Indexer σ
  owns : V.Slot → Bool
  saves : FileTree → Path → Source → (k : V.Slot) → Option (FileFacts (V.Fact k))
  fails : FileTree → Path → Source → Bool
  index_store : ∀ env p tree src s, V.IsOpen s → indexer.accepts p = true →
    parsePath p src = .ok tree → ∀ k, V.store k (indexer.index env p tree src s).1 =
      if owns k then (V.store k s).taking p (saves env.files p src k) else V.store k s
  index_fails : ∀ env p tree src s, V.IsOpen s → indexer.accepts p = true →
    parsePath p src = .ok tree →
    (indexer.index env p tree src s).2.isSome = fails env.files p src
  removed_store : ∀ env ps s, V.IsOpen s → ∀ k, V.store k (indexer.removed env ps s).1 =
    if owns k then (V.store k s).without ps else V.store k s
  removed_ok : ∀ env ps s, V.IsOpen s → (indexer.removed env ps s).2 = none

namespace Scribe

variable {σ : Type} {V : Shelf σ}

/-- What becomes of a store when a file is handed to the scribe. A file that cannot be parsed loses
what it owns. -/
def write (w : Scribe V) (files : FileTree) (p : Path) (src : Source) (k : V.Slot)
    (st : FactStore (V.Fact k)) : FactStore (V.Fact k) :=
  if w.owns k then
    match parsePath p src with
    | .ok _ => st.taking p (w.saves files p src k)
    | .error _ => st.without [p]
  else st

def misses (w : Scribe V) (files : FileTree) (p : Path) (src : Source) : Bool :=
  match parsePath p src with
  | .ok _ => w.fails files p src
  | .error _ => false

/-- A clearing that may fail leaves each store as it was or blank; if it succeeds, the scribe's own
stores are blank. -/
def Clears (w : Scribe V) : Prop :=
  ∀ env s, V.IsOpen s → ∀ k,
    (V.store k (w.indexer.clear env s).1 = V.store k s ∨
      V.store k (w.indexer.clear env s).1 = (V.store k s).blank) ∧
    ((w.indexer.clear env s).2 = none → w.owns k = true →
      V.store k (w.indexer.clear env s).1 = (V.store k s).blank)

theorem Clears.isOpen {w : Scribe V} (h : w.Clears) (env : Surroundings) {s : σ}
    (hopen : V.IsOpen s) : V.IsOpen (w.indexer.clear env s).1 := fun k =>
  (FactStore.closed_of_same_or_blank (h env s hopen k).1).trans (hopen k)

theorem closed_write (w : Scribe V) (files : FileTree) (p : Path) (src : Source) (k : V.Slot)
    (st : FactStore (V.Fact k)) : (w.write files p src k st).closed = st.closed := by
  unfold write
  split
  · split
    · exact st.closed_taking p _
    · rfl
  · rfl

theorem without_write {p : Path} {ps : List Path} (hp : p ∉ ps) (w : Scribe V) (files : FileTree)
    (src : Source) (k : V.Slot) (st : FactStore (V.Fact k)) :
    (w.write files p src k st).without ps = w.write files p src k (st.without ps) := by
  unfold write
  split
  · split
    · exact FactStore.without_taking hp st _
    · rw [FactStore.without_without, FactStore.without_without]
      exact FactStore.without_congr fun r _ => by simp [or_comm]
  · rfl

theorem file_of_mem_write {w : Scribe V} {files : FileTree} {p : Path} {src : Source} {k : V.Slot}
    {st : FactStore (V.Fact k)} {r : Row (V.Fact k)} (h : r ∈ (w.write files p src k st).rows) :
    r.file = p ∨ r ∈ st.rows := by
  unfold write at h
  split at h
  · split at h
    · exact FactStore.file_of_mem_taking h
    · exact .inr (List.mem_of_mem_filter h)
  · exact .inr h

theorem callEach_store {A : List (Scribe V)} (call : Indexer σ → σ → Outcome σ)
    (act : Scribe V → (k : V.Slot) → FactStore (V.Fact k) → FactStore (V.Fact k))
    (fails : Scribe V → Bool)
    (hstore : ∀ w ∈ A, ∀ s, V.IsOpen s → ∀ k,
      V.store k (call w.indexer s).1 = act w k (V.store k s))
    (hfails : ∀ w ∈ A, ∀ s, V.IsOpen s → (call w.indexer s).2.isSome = fails w)
    (hclosed : ∀ w k st, (act w k st).closed = st.closed) {facts : σ} (hopen : V.IsOpen facts) :
    let o := Scanner.callEach call (A.map Scribe.indexer) facts
    V.IsOpen o.1 ∧
      (∀ k, V.store k o.1 = A.foldl (fun st w => act w k st) (V.store k facts)) ∧
      o.2 = A.countP fails := by
  induction A generalizing facts with
  | nil => exact ⟨hopen, fun _ => rfl, rfl⟩
  | cons w A ih =>
    have hfirst := hstore w (List.mem_cons_self ..) facts hopen
    have hopen₁ : V.IsOpen (call w.indexer facts).1 := by
      intro k
      rw [hfirst k, hclosed]
      exact hopen k
    obtain ⟨hopen', hstore', hcount⟩ := ih (fun v hv => hstore v (List.mem_cons_of_mem _ hv))
      (fun v hv => hfails v (List.mem_cons_of_mem _ hv)) hopen₁
    simp only [List.map_cons, Scanner.callEach]
    refine ⟨hopen', fun k => ?_, ?_⟩
    · rw [hstore' k, hfirst k, List.foldl_cons]
    · rw [hcount, hfails w (List.mem_cons_self ..) facts hopen, List.countP_cons, Nat.add_comm]

def writeAll (W : List (Scribe V)) (files : FileTree) (p : Path) (src : Source) (k : V.Slot)
    (st : FactStore (V.Fact k)) : FactStore (V.Fact k) :=
  (W.filter fun w => w.indexer.accepts p).foldl (fun st w => w.write files p src k st) st

def missCount (W : List (Scribe V)) (files : FileTree) (p : Path) (src : Source) : Nat :=
  (W.filter fun w => w.indexer.accepts p).countP fun w => w.misses files p src

theorem offer_store {W : List (Scribe V)} {s : Scanner σ}
    (hindexers : s.indexers = W.map Scribe.indexer) (env : Surroundings) (p : Path) (src : Source)
    {facts : σ} (hopen : V.IsOpen facts) :
    let o := s.offer env p src (parsePath p src) facts
    V.IsOpen o.1 ∧ (∀ k, V.store k o.1 = writeAll W env.files p src k (V.store k facts)) ∧
      o.2 = missCount W env.files p src := by
  have haccepting : s.indexers.filter (fun i => i.accepts p) =
      (W.filter fun w => w.indexer.accepts p).map Scribe.indexer := by
    rw [hindexers, List.filter_map]
    rfl
  have haccepts : ∀ w ∈ W.filter (fun w => w.indexer.accepts p), w.indexer.accepts p = true :=
    fun w hw => (List.mem_filter.1 hw).2
  unfold Scanner.offer writeAll missCount
  rw [haccepting]
  cases htree : parsePath p src with
  | ok tree =>
    refine callEach_store _ (fun w => w.write env.files p src) (fun w => w.misses env.files p src)
      (fun w hw s hs k => ?_) (fun w hw s hs => ?_) (fun w => w.closed_write env.files p src) hopen
    · rw [w.index_store env p tree src s hs (haccepts w hw) htree, write, htree]
    · rw [w.index_fails env p tree src s hs (haccepts w hw) htree, misses, htree]
  | error e =>
    refine callEach_store _ (fun w => w.write env.files p src) (fun w => w.misses env.files p src)
      (fun w hw s hs k => ?_) (fun w hw s hs => ?_) (fun w => w.closed_write env.files p src) hopen
    · rw [w.removed_store env [p] s hs, write, htree]
    · rw [w.removed_ok env [p] s hs, misses, htree]
      rfl

def dropAll (W : List (Scribe V)) (ps : List Path) (k : V.Slot) (st : FactStore (V.Fact k)) :
    FactStore (V.Fact k) :=
  if W.any fun w => w.owns k then st.without ps else st

theorem foldl_drop (W : List (Scribe V)) (ps : List Path) (k : V.Slot)
    (st : FactStore (V.Fact k)) :
    W.foldl (fun st w => if w.owns k then st.without ps else st) st = dropAll W ps k st := by
  have htwice : ∀ st : FactStore (V.Fact k), (st.without ps).without ps = st.without ps := by
    intro st
    rw [FactStore.without_without]
    exact FactStore.without_congr fun r _ => by simp
  induction W generalizing st with
  | nil => rfl
  | cons w W ih =>
    rw [List.foldl_cons, ih, dropAll, dropAll, List.any_cons]
    by_cases hw : w.owns k
    · by_cases hW : W.any (fun w => w.owns k) <;> simp [hw, hW, htwice]
    · simp [hw]

theorem removed_store_all (W : List (Scribe V)) (env : Surroundings) (ps : List Path) {facts : σ}
    (hopen : V.IsOpen facts) :
    let o := Scanner.callEach (fun i => i.removed env ps) (W.map Scribe.indexer) facts
    V.IsOpen o.1 ∧ (∀ k, V.store k o.1 = dropAll W ps k (V.store k facts)) ∧ o.2 = 0 := by
  have hfails : ∀ w ∈ W, ∀ s, V.IsOpen s → (w.indexer.removed env ps s).2.isSome = false := by
    intro w _ s hs
    rw [w.removed_ok env ps s hs]
    rfl
  have hclosed : ∀ (w : Scribe V) (k : V.Slot) (st : FactStore (V.Fact k)),
      (if w.owns k then st.without ps else st).closed = st.closed := by
    intro w k st
    split <;> rfl
  obtain ⟨hopen', hstore, hcount⟩ :=
    callEach_store (fun i => i.removed env ps)
      (fun w k st => if w.owns k then st.without ps else st) (fun _ => false)
      (fun w _ s hs => w.removed_store env ps s hs) hfails hclosed hopen
  refine ⟨hopen', fun k => (hstore k).trans (foldl_drop W ps k _), hcount.trans ?_⟩
  exact List.countP_eq_zero.2 fun _ _ => Bool.false_ne_true

theorem clear_store_all {W : List (Scribe V)} (hW : ∀ w ∈ W, w.Clears) (env : Surroundings)
    {facts : σ} (hopen : V.IsOpen facts) :
    let o := Scanner.callUntilFailure (fun i => i.clear env) (W.map Scribe.indexer) facts
    V.IsOpen o.1 ∧
      (∀ k, V.store k o.1 = V.store k facts ∨ V.store k o.1 = (V.store k facts).blank) ∧
      (o.2 = none → ∀ k, (W.any fun w => w.owns k) = true →
        V.store k o.1 = (V.store k facts).blank) := by
  induction W generalizing facts with
  | nil => exact ⟨hopen, fun _ => .inl rfl, fun _ k hk => absurd hk (by simp)⟩
  | cons w W ih =>
    have hfirst := hW w (List.mem_cons_self ..) env facts hopen
    have hopen₁ := (hW w (List.mem_cons_self ..)).isOpen env hopen
    simp only [List.map_cons, Scanner.callUntilFailure]
    split
    · next facts₁ hcall =>
      rw [hcall] at hfirst hopen₁
      obtain ⟨hopen', hstore, hnone⟩ := ih (fun v hv => hW v (List.mem_cons_of_mem _ hv)) hopen₁
      refine ⟨hopen', fun k => ?_, fun hok k hk => ?_⟩
      · rcases hstore k with hkept | hwiped
        · rw [hkept]
          exact (hfirst k).1
        · exact .inr (hwiped.trans (FactStore.blank_of_same_or_blank (hfirst k).1))
      · rw [List.any_cons, Bool.or_eq_true] at hk
        rcases hk with hw | hrest
        · -- What the first clearing emptied stays so: the later ones can only empty more.
          have hblank := (hfirst k).2 rfl hw
          rcases hstore k with hkept | hwiped
          · exact hkept.trans hblank
          · exact hwiped.trans (FactStore.blank_of_same_or_blank (hfirst k).1)
        · exact (hnone hok k hrest).trans (FactStore.blank_of_same_or_blank (hfirst k).1)
    · next facts₁ e hcall =>
      rw [hcall] at hfirst hopen₁
      refine ⟨hopen₁, fun k => (hfirst k).1, fun hnone => ?_⟩
      cases hnone

end Scribe
end ProjectIndex
