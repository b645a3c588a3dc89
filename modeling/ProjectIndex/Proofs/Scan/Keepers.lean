import ProjectIndex.Proofs.Scan.Incremental

/-!
Indexers that keep what they know of a file under the file. Indexing a file may fail and may save
anything for it; a removal may fail; a clearing may fail halfway. As long as no removal has failed,
each row of a store belongs to a recorded file, after any calls of the scanner.
-/
namespace ProjectIndex

variable {σ : Type}

namespace Shelf

variable (V : Shelf σ)

def rows (k : V.Slot) (s : σ) : List (Row (V.Fact k)) := (V.store k s).rows

/-- What every call leaves: open stores, in which a removal has failed if one had before. -/
structure Carries (intact : σ → Prop) (s t : σ) : Prop where
  isOpen : V.IsOpen t
  intact : intact t → intact s

variable {V} {intact : σ → Prop} {s t u : σ}

theorem Carries.trans (h : V.Carries intact s t) (k : V.Carries intact t u) :
    V.Carries intact s u := ⟨k.isOpen, fun hu => h.intact (k.intact hu)⟩

end Shelf

/-- An indexer that keeps rows of files on a shelf. `intact` tells the states in which no removal has
failed so far. -/
structure Keeper (V : Shelf σ) (intact : σ → Prop) where
  indexer : Indexer σ
  owns : V.Slot → Bool
  index_carries : ∀ env p tree src s, V.IsOpen s → indexer.accepts p = true →
    parsePath p src = .ok tree → V.Carries intact s (indexer.index env p tree src s).1
  index_rows : ∀ env p tree src s, V.IsOpen s → indexer.accepts p = true →
    parsePath p src = .ok tree → ∀ k, ∀ r ∈ V.rows k (indexer.index env p tree src s).1,
      r ∈ V.rows k s ∨ r.file = p
  removed_carries : ∀ env ps s, V.IsOpen s → V.Carries intact s (indexer.removed env ps s).1
  removed_intact : ∀ env ps s, V.IsOpen s → intact (indexer.removed env ps s).1 →
    (indexer.removed env ps s).2 = none
  removed_rows : ∀ env ps s, V.IsOpen s → ∀ k,
    V.rows k (indexer.removed env ps s).1 = V.rows k s ∨
      owns k = true ∧ V.rows k (indexer.removed env ps s).1 = Rows.deleteFiles (V.rows k s) ps
  removed_ok : ∀ env ps s, V.IsOpen s → (indexer.removed env ps s).2 = none → ∀ k, owns k = true →
    V.rows k (indexer.removed env ps s).1 = Rows.deleteFiles (V.rows k s) ps
  clear_carries : ∀ env s, V.IsOpen s → V.Carries intact s (indexer.clear env s).1
  clear_rows : ∀ env s, V.IsOpen s → ∀ k,
    V.rows k (indexer.clear env s).1 = V.rows k s ∨ V.rows k (indexer.clear env s).1 = []
  clear_ok : ∀ env s, V.IsOpen s → (indexer.clear env s).2 = none → ∀ k, owns k = true →
    V.rows k (indexer.clear env s).1 = []
  close_rows : ∀ env s k, V.rows k (indexer.close env s).1 = V.rows k s

namespace Keeper

variable {V : Shelf σ} {intact : σ → Prop} {K : List (Keeper V intact)} {facts : σ}

def Own (K : List (Keeper V intact)) (k : V.Slot) : Prop := ∃ w ∈ K, w.owns k = true

theorem own_cons {w : Keeper V intact} {k : V.Slot} :
    Own (w :: K) k ↔ w.owns k = true ∨ Own K k := by
  simp [Own]

theorem callEach_index (env : Surroundings) {p : Path} {tree : SyntaxTree} {src : Source}
    (htree : parsePath p src = .ok tree) (haccepts : ∀ w ∈ K, w.indexer.accepts p = true)
    (hopen : V.IsOpen facts) :
    let t := (Scanner.callEach (fun i => i.index env p tree src) (K.map indexer) facts).1
    V.Carries intact facts t ∧ ∀ k, ∀ r ∈ V.rows k t, r ∈ V.rows k facts ∨ r.file = p := by
  induction K generalizing facts with
  | nil => exact ⟨⟨hopen, id⟩, fun _ _ hr => .inl hr⟩
  | cons w K ih =>
    have haccept := haccepts w (List.mem_cons_self ..)
    have hcarries := w.index_carries env p tree src facts hopen haccept htree
    have hrows := w.index_rows env p tree src facts hopen haccept htree
    obtain ⟨hcarries', hrows'⟩ :=
      ih (fun v hv => haccepts v (List.mem_cons_of_mem _ hv)) hcarries.isOpen
    simp only [List.map_cons, Scanner.callEach]
    refine ⟨hcarries.trans hcarries', fun k r hr => ?_⟩
    rcases hrows' k r hr with hold | hfile
    · exact hrows k r hold
    · exact .inr hfile

/-- A round of removals takes rows of the files away. If no removal has failed so far, the keepers'
own stores have no more rows of them. -/
theorem callEach_removed (K : List (Keeper V intact)) (env : Surroundings) (ps : List Path)
    (hopen : V.IsOpen facts) :
    let t := (Scanner.callEach (fun i => i.removed env ps) (K.map indexer) facts).1
    V.Carries intact facts t ∧
      (∀ k, V.rows k t = V.rows k facts ∨
        Own K k ∧ V.rows k t = Rows.deleteFiles (V.rows k facts) ps) ∧
      (intact t → ∀ k, Own K k → V.rows k t = Rows.deleteFiles (V.rows k facts) ps) := by
  induction K generalizing facts with
  | nil => exact ⟨⟨hopen, id⟩, fun _ => .inl rfl, fun _ _ ⟨_, hw, _⟩ => absurd hw List.not_mem_nil⟩
  | cons w K ih =>
    have hcarries := w.removed_carries env ps facts hopen
    have hrows := w.removed_rows env ps facts hopen
    obtain ⟨hcarries', hrows', hdeleted⟩ := ih hcarries.isOpen
    -- What the first keeper leaves and what was there differ in rows of these files only.
    have hsameRest : ∀ k, Rows.deleteFiles (V.rows k (w.indexer.removed env ps facts).1) ps =
        Rows.deleteFiles (V.rows k facts) ps := by
      intro k
      rcases hrows k with hsame | ⟨_, hless⟩
      · rw [hsame]
      · rw [hless, Rows.deleteFiles_twice]
    simp only [List.map_cons, Scanner.callEach]
    refine ⟨hcarries.trans hcarries', fun k => ?_, fun hintact k hk => ?_⟩
    · rw [own_cons]
      rcases hrows' k with hsame | ⟨hown, hless⟩
      · rw [hsame]
        exact (hrows k).imp_right fun h => ⟨.inl h.1, h.2⟩
      · exact .inr ⟨.inr hown, hless.trans (hsameRest k)⟩
    · have hok := w.removed_ok env ps facts hopen
        (w.removed_intact env ps facts hopen (hcarries'.intact hintact)) k
      rcases own_cons.1 hk with hw | hown
      · rcases hrows' k with hsame | ⟨_, hless⟩
        · rw [hsame, hok hw]
        · exact hless.trans (hsameRest k)
      · exact (hdeleted hintact k hown).trans (hsameRest k)

theorem callUntilFailure_clear (K : List (Keeper V intact)) (env : Surroundings)
    (hopen : V.IsOpen facts) :
    let o := Scanner.callUntilFailure (fun i => i.clear env) (K.map indexer) facts
    V.Carries intact facts o.1 ∧ (∀ k, V.rows k o.1 = V.rows k facts ∨ V.rows k o.1 = []) ∧
      (o.2 = none → ∀ k, Own K k → V.rows k o.1 = []) := by
  induction K generalizing facts with
  | nil => exact ⟨⟨hopen, id⟩, fun _ => .inl rfl, fun _ _ ⟨_, hw, _⟩ => absurd hw List.not_mem_nil⟩
  | cons w K ih =>
    have hcarries := w.clear_carries env facts hopen
    have hrows := w.clear_rows env facts hopen
    have hok := w.clear_ok env facts hopen
    simp only [List.map_cons, Scanner.callUntilFailure]
    split
    · next t hcall =>
      rw [hcall] at hcarries hrows hok
      obtain ⟨hcarries', hrows', hempty⟩ := ih hcarries.isOpen
      refine ⟨hcarries.trans hcarries', fun k => ?_, fun hnone k hk => ?_⟩
      · rcases hrows' k with hsame | hnil
        · rw [hsame]
          exact hrows k
        · exact .inr hnil
      · rcases own_cons.1 hk with hw | hown
        · rcases hrows' k with hsame | hnil
          · rw [hsame]
            exact hok rfl k hw
          · exact hnil
        · exact hempty hnone k hown
    · next t e hcall =>
      rw [hcall] at hcarries hrows
      exact ⟨hcarries, hrows, fun hnone => by cases hnone⟩

theorem callAll_close (K : List (Keeper V intact)) (env : Surroundings) (facts : σ) (k : V.Slot) :
    V.rows k (Scanner.callAll (fun i => i.close env) (K.map indexer) facts).1 = V.rows k facts := by
  induction K generalizing facts with
  | nil => rfl
  | cons w K ih => exact (ih _).trans (w.close_rows env facts k)

theorem offer_rows {s : Scanner σ} (hindexers : s.indexers = K.map indexer) (env : Surroundings)
    (p : Path) (src : Source) (hopen : V.IsOpen facts) :
    let t := (s.offer env p src (parsePath p src) facts).1
    V.Carries intact facts t ∧ ∀ k, ∀ r ∈ V.rows k t, r ∈ V.rows k facts ∨ r.file = p := by
  have haccepting : s.indexers.filter (fun i => i.accepts p) =
      (K.filter fun w => w.indexer.accepts p).map indexer := by
    rw [hindexers, List.filter_map]
    rfl
  unfold Scanner.offer
  rw [haccepting]
  cases htree : parsePath p src with
  | ok tree => exact callEach_index env htree (fun w hw => (List.mem_filter.1 hw).2) hopen
  | error e =>
    -- A file that cannot be parsed is taken away from its indexers.
    obtain ⟨hcarries, hrows, _⟩ :=
      callEach_removed (K.filter fun w => w.indexer.accepts p) env [p] hopen
    refine ⟨hcarries, fun k r hr => .inl ?_⟩
    rcases hrows k with hsame | ⟨_, hless⟩
    · exact hsame ▸ hr
    · exact List.mem_of_mem_filter (hless ▸ hr)

end Keeper

namespace Scanner

variable {V : Shelf σ} {intact : σ → Prop} {K : List (Keeper V intact)}

/-- A scanner with these keepers. Unless a removal has failed, every row of their stores belongs to a
recorded file. -/
structure Tended (K : List (Keeper V intact)) (s : Scanner σ) : Prop where
  indexers : s.indexers = K.map Keeper.indexer
  isOpen : s.hashes.closed = false
  stores : V.IsOpen s.facts
  recorded : intact s.facts → ∀ k, Keeper.Own K k → ∀ r ∈ V.rows k s.facts,
    (s.hashes.find? r.file).isSome = true

section

variable {s : Scanner σ}

theorem Tended.settle (h : s.Tended K) (env : Surroundings) (now : Timestamp) (p : Path)
    (bytes : List UInt8) : (settle env now s (changedTo p bytes)).Tended K := by
  obtain ⟨hcarries, hrows⟩ :=
    Keeper.offer_rows h.indexers env p (Text.decodeLossy bytes) h.stores
  refine ⟨h.indexers, h.isOpen, hcarries.isOpen, fun hintact k hk r hr => ?_⟩
  rw [find?_settle]
  split
  · rfl
  · next hother =>
    have hold := (hrows k r hr).resolve_right hother
    exact h.recorded (hcarries.intact hintact) k hk r hold

theorem Tended.discard (h : s.Tended K) (env : Surroundings) (ps : List Path) :
    (s.discard env ps).Tended K := by
  obtain ⟨hcarries, _, hdeleted⟩ := Keeper.callEach_removed K env ps h.stores
  rw [← h.indexers] at hcarries hdeleted
  refine ⟨h.indexers, h.isOpen, hcarries.isOpen, fun hintact k hk r hr => ?_⟩
  have hrows : V.rows k (s.discard env ps).facts = _ := hdeleted hintact k hk
  rw [hrows] at hr
  obtain ⟨hold, hstays⟩ := List.mem_filter.1 hr
  have hfind := HashTable.find?_without s.hashes ps r.file
  rw [if_neg (by simpa using hstays)] at hfind
  exact hfind ▸ h.recorded (hcarries.intact hintact) k hk r hold

theorem Tended.clear (h : s.Tended K) (env : Surroundings) : (s.clearAll env).1.Tended K := by
  obtain ⟨hcarries, hrows, hempty⟩ := Keeper.callUntilFailure_clear K env h.stores
  rw [← h.indexers] at hcarries hrows hempty
  unfold clearAll
  split
  · next facts e hcall =>
    -- The records all stand, and what is left of the rows was there before.
    rw [hcall] at hcarries hrows
    refine ⟨h.indexers, h.isOpen, hcarries.isOpen, fun hintact k hk r hr => ?_⟩
    have hr' : r ∈ V.rows k facts := hr
    rcases hrows k with hsame | hnil
    · exact h.recorded (hcarries.intact hintact) k hk r (hsame ▸ hr')
    · rw [show V.rows k facts = [] from hnil] at hr'
      exact absurd hr' List.not_mem_nil
  · next facts hcall =>
    rw [hcall] at hcarries hempty
    rw [HashTable.clear_eq h.isOpen]
    refine ⟨h.indexers, rfl, hcarries.isOpen, fun _ k hk r hr => ?_⟩
    have hr' : r ∈ V.rows k facts := hr
    rw [show V.rows k facts = [] from hempty rfl k hk] at hr'
    exact absurd hr' List.not_mem_nil

end

theorem tended_invariant : Invariant (fun _ _ => True) (Tended (σ := σ) K) where
  isOpen h := h.isOpen
  settle env now _ p bytes _ h := h.settle env now p bytes
  discard env _ ps h := h.discard env ps
  clear env _ h := h.clear env

/-- A scanner with these keepers that was opened on empty stores, with any calls behind it. Between
calls, as long as no removal has failed, it may be opened again, on another directory and with other
options, on the records and rows it has. -/
inductive ReachedBy (K : List (Keeper V intact)) : Scanner σ → Prop
  | opened {files root options facts s} (hopen : V.IsOpen facts) (hempty : ∀ k, V.rows k facts = [])
    (h : open? files root options (K.map Keeper.indexer) .new facts = .ok s) : ReachedBy K s
  | called {s} (m : Moment) (c : ScanCall) (h : ReachedBy K s) : ReachedBy K (s.call m c)
  | reopened {files root options hashes facts s t} (h : ReachedBy K s) (hintact : intact s.facts)
    (hopen : V.IsOpen facts) (hrows : ∀ k, V.rows k facts = V.rows k s.facts)
    (hrecords : hashes.files = s.hashes.files)
    (ht : open? files root options (K.map Keeper.indexer) hashes facts = .ok t) : ReachedBy K t

theorem ReachedBy.tended {s : Scanner σ} (h : ReachedBy K s) :
    s.Tended K ∧ s.closed = false ∧
      ∃ place, s.root = FileTree.pathOf place ∧ ∀ n ∈ place, Plain n := by
  induction h with
  | opened hopen hempty h =>
    have hroot := root_of_open? h
    obtain ⟨canonical, _, rfl⟩ := open?_eq_ok h
    refine ⟨⟨rfl, rfl, hopen, fun _ k _ r hr => ?_⟩, rfl, hroot⟩
    exact absurd (hempty k ▸ hr) List.not_mem_nil
  | @called s m c _ ih =>
    obtain ⟨htended, hclosed, hroot⟩ := ih
    obtain ⟨htended', hsame⟩ := ((tended_invariant (K := K)).withProject s).call m c
      (fun _ _ _ _ => trivial) ⟨htended, rfl, rfl, rfl, rfl⟩
    exact ⟨htended', hsame.closed.trans hclosed, hsame.root ▸ hroot⟩
  | @reopened _ _ _ hashes _ s _ _ hintact hopen hrows hrecords ht ih =>
    have hroot := root_of_open? ht
    obtain ⟨canonical, _, rfl⟩ := open?_eq_ok ht
    refine ⟨⟨rfl, rfl, hopen, fun _ k hk r hr => ?_⟩, rfl, hroot⟩
    have hfind : hashes.find? r.file = s.hashes.find? r.file := by
      rw [HashTable.find?, HashTable.find?, hrecords]
    exact hfind ▸ ih.1.recorded hintact k hk r (hrows k ▸ hr)

end Scanner
end ProjectIndex
