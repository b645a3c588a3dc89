import ProjectIndex.Engine.Facts
import ProjectIndex.Proofs.Scan.Invariant

/-!
The stores without what they hold. No call of an indexer opens, closes or renames a store, and a
clearing that succeeds leaves nothing but the blank stores.
-/
namespace ProjectIndex

structure Indexer.Keeps {σ τ : Type} (i : Indexer σ) (shape : σ → τ) : Prop where
  index : ∀ env p tree src s, shape (i.index env p tree src s).1 = shape s
  removed : ∀ env ps s, shape (i.removed env ps s).1 = shape s
  clear : ∀ env s, shape (i.clear env s).1 = shape s

theorem Indexer.Keeps.onPart {σ τ ρ υ : Type} {i : Indexer σ} {shape : σ → ρ} (h : i.Keeps shape)
    {get : τ → σ} {set : σ → τ → τ} {whole : τ → υ}
    (hset : ∀ s t, shape s = shape (get t) → whole (set s t) = whole t) :
    (i.onPart get set).Keeps whole where
  index env p tree src t := hset _ t (h.index env p tree src (get t))
  removed env ps t := hset _ t (h.removed env ps (get t))
  clear env t := hset _ t (h.clear env (get t))

def Indexer.ClearsTo {σ : Type} (i : Indexer σ) (wipe : σ → σ) : Prop :=
  ∀ env s, (i.clear env s).2 = none → (i.clear env s).1 = wipe s

namespace Scanner

variable {σ τ : Type}

theorem callEach_keeps {shape : σ → τ} {call : Indexer σ → σ → Outcome σ} {is : List (Indexer σ)}
    (h : ∀ i ∈ is, ∀ s, shape (call i s).1 = shape s) (s : σ) :
    shape (callEach call is s).1 = shape s := by
  induction is generalizing s with
  | nil => rfl
  | cons i is ih =>
    rw [callEach, ih (fun j hj => h j (List.mem_cons_of_mem _ hj))]
    exact h i (List.mem_cons_self ..) s

theorem callUntilFailure_keeps {shape : σ → τ} {call : Indexer σ → σ → Outcome σ}
    {is : List (Indexer σ)} (h : ∀ i ∈ is, ∀ s, shape (call i s).1 = shape s) (s : σ) :
    shape (callUntilFailure call is s).1 = shape s := by
  induction is generalizing s with
  | nil => rfl
  | cons i is ih =>
    have hfirst := h i (List.mem_cons_self ..) s
    have hrest := ih fun j hj => h j (List.mem_cons_of_mem _ hj)
    rw [callUntilFailure]
    split
    · next hcall =>
      rw [hcall] at hfirst
      exact (hrest _).trans hfirst
    · next hcall =>
      rw [hcall] at hfirst
      exact hfirst

theorem eq_foldl_of_cleared {env : Surroundings} {is : List (Indexer σ)} {wipes : List (σ → σ)}
    (h : List.Forall₂ Indexer.ClearsTo is wipes) {s out : σ}
    (hclear : callUntilFailure (fun i => i.clear env) is s = (out, none)) :
    out = wipes.foldl (fun s wipe => wipe s) s := by
  induction h generalizing s with
  | nil =>
    cases hclear
    rfl
  | cons hfirst _ ih =>
    rw [callUntilFailure] at hclear
    split at hclear
    · next hcall =>
      rw [List.foldl_cons, ← hfirst env s (congrArg Prod.snd hcall), hcall]
      exact ih hclear
    · cases hclear

theorem keeps_invariant {is : List (Indexer σ)} {shape : σ → τ} (h : ∀ i ∈ is, i.Keeps shape)
    (kept : τ) :
    Invariant (fun _ _ => True) fun s : Scanner σ =>
      s.hashes.closed = false ∧ s.indexers = is ∧ shape s.facts = kept where
  isOpen hs := hs.1
  settle env now s p bytes _ hs := by
    refine ⟨(hashes_closed_settle env now s _).trans hs.1, hs.2.1, Eq.trans ?_ hs.2.2⟩
    have haccepting : ∀ i ∈ s.indexers.filter fun i => i.accepts p, i.Keeps shape := fun i hi =>
      h i (hs.2.1 ▸ List.mem_of_mem_filter hi)
    change shape (s.offer env p _ _ s.facts).1 = shape s.facts
    unfold offer
    split
    · exact callEach_keeps (fun i hi => (haccepting i hi).index env p _ _) s.facts
    · exact callEach_keeps (fun i hi => (haccepting i hi).removed env [p]) s.facts
  discard env s ps hs := by
    refine ⟨hs.1, hs.2.1, Eq.trans ?_ hs.2.2⟩
    exact callEach_keeps (fun i hi => (h i (hs.2.1 ▸ hi)).removed env ps) s.facts
  clear env s hs := by
    have hkeeps : ∀ i ∈ s.indexers, ∀ f, shape (i.clear env f).1 = shape f := fun i hi =>
      (h i (hs.2.1 ▸ hi)).clear env
    have hshape := callUntilFailure_keeps hkeeps s.facts
    unfold clearAll
    split
    · next hcall =>
      rw [hcall] at hshape
      exact ⟨hs.1, hs.2.1, hshape.trans hs.2.2⟩
    · next hcall =>
      rw [hcall] at hshape
      rw [HashTable.clear_eq hs.1]
      exact ⟨rfl, hs.2.1, hshape.trans hs.2.2⟩

end Scanner

namespace FactStore

variable {α : Type}

def blank (s : FactStore α) : FactStore α := { s with rows := [] }

theorem closed_of_same_or_blank {s s' : FactStore α} (h : s' = s ∨ s' = s.blank) :
    s'.closed = s.closed := by
  rcases h with rfl | rfl <;> rfl

theorem blank_of_same_or_blank {s s' : FactStore α} (h : s' = s ∨ s' = s.blank) :
    s'.blank = s.blank := by
  rcases h with rfl | rfl <;> rfl

theorem blank_of_whenOpen {s s' : FactStore α} {rows : List (Row α)}
    (h : s.whenOpen { s with rows := rows } = .ok s') : s'.blank = s.blank := by
  unfold whenOpen at h
  split at h
  · cases h
  · cases h
    rfl

theorem blank_of_save {s s' : FactStore α} {batch : List (Path × FileFacts α)}
    (h : s.save batch = .ok s') : s'.blank = s.blank := blank_of_whenOpen h

theorem blank_of_deleteFiles {s s' : FactStore α} {ps : List Path}
    (h : s.deleteFiles ps = .ok s') : s'.blank = s.blank := by
  unfold deleteFiles at h
  split at h
  · cases h
    rfl
  · exact blank_of_whenOpen h

theorem eq_blank_of_clear {s s' : FactStore α} (h : s.clear = .ok s') : s' = s.blank := by
  unfold clear whenOpen at h
  split at h
  · cases h
  · exact (Except.ok.inj h).symm

theorem blank_ofExcept {s : FactStore α} {result : Except Failure (FactStore α)}
    (h : ∀ s', result = .ok s' → s'.blank = s.blank) :
    (Outcome.ofExcept s result).1.blank = s.blank := by
  cases result with
  | ok s' => exact h s' rfl
  | error e => rfl

theorem indexer_keeps (id : String) (accepts : Path → Bool)
    (extract : FileTree → Path → SyntaxTree → Source → Except Failure (FileFacts α)) :
    (FactStore.indexer id accepts extract).Keeps blank where
  index env p tree src s := by
    unfold FactStore.indexer
    dsimp only
    split
    · split
      · exact blank_ofExcept fun s' => blank_of_save
      · rfl
    · rfl
  removed env ps s := blank_ofExcept fun s' => blank_of_deleteFiles
  clear env s := blank_ofExcept fun s' hs' => by rw [eq_blank_of_clear hs']; rfl

theorem indexer_clearsTo (id : String) (accepts : Path → Bool)
    (extract : FileTree → Path → SyntaxTree → Source → Except Failure (FileFacts α)) :
    (FactStore.indexer id accepts extract).ClearsTo blank := by
  intro env s hnone
  change (Outcome.ofExcept s s.clear).2 = none at hnone
  change (Outcome.ofExcept s s.clear).1 = s.blank
  cases hclear : s.clear with
  | ok s' => exact eq_blank_of_clear hclear
  | error e =>
    rw [hclear] at hnone
    cases hnone

end FactStore

namespace StorePair

variable {α β : Type}

def blank (p : StorePair α β) : StorePair α β := ⟨p.first.blank, p.second.blank⟩

theorem blank_andThen {o : Outcome (StorePair α β)}
    {next : StorePair α β → Outcome (StorePair α β)} {p : StorePair α β}
    (ho : o.1.blank = p.blank) (hnext : ∀ p, (next p).1.blank = p.blank) :
    (o.andThen next).1.blank = p.blank := by
  obtain ⟨q, failure⟩ := o
  cases failure with
  | none => exact (hnext q).trans ho
  | some e => exact ho

theorem blank_inFirst {op : FactStore α → Except Failure (FactStore α)}
    (hop : ∀ s s', op s = .ok s' → s'.blank = s.blank) (p : StorePair α β) :
    (p.inFirst op).1.blank = p.blank := by
  unfold inFirst
  cases hres : op p.first with
  | ok s' => exact congrArg (StorePair.mk · p.second.blank) (hop _ _ hres)
  | error e => rfl

theorem blank_inSecond {op : FactStore β → Except Failure (FactStore β)}
    (hop : ∀ s s', op s = .ok s' → s'.blank = s.blank) (p : StorePair α β) :
    (p.inSecond op).1.blank = p.blank := by
  unfold inSecond
  cases hres : op p.second with
  | ok s' => exact congrArg (StorePair.mk p.first.blank) (hop _ _ hres)
  | error e => rfl

theorem blank_save (p : StorePair α β) (file : Path) (facts : FileFacts α × FileFacts β) :
    (p.save file facts).1.blank = p.blank :=
  blank_andThen (blank_inFirst (fun _ _ => FactStore.blank_of_save) p)
    (blank_inSecond fun _ _ => FactStore.blank_of_save)

theorem blank_deleteFiles (p : StorePair α β) (ps : List Path) :
    (p.deleteFiles ps).1.blank = p.blank :=
  blank_andThen (blank_inFirst (fun _ _ => FactStore.blank_of_deleteFiles) p)
    (blank_inSecond fun _ _ => FactStore.blank_of_deleteFiles)

theorem blank_clear (p : StorePair α β) : p.clear.1.blank = p.blank := by
  have hop : ∀ {γ : Type} (s s' : FactStore γ), s.clear = .ok s' → s'.blank = s.blank := by
    intro γ s s' h
    rw [FactStore.eq_blank_of_clear h]
    rfl
  exact blank_andThen (blank_inFirst hop p) (blank_inSecond hop)

theorem indexer_keeps (id : String) (accepts : Path → Bool)
    {save : FileTree → Path → SyntaxTree → Source → StorePair α β → Outcome (StorePair α β)}
    (hsave : ∀ files p tree src s, (save files p tree src s).1.blank = s.blank) :
    (StorePair.indexer id accepts save).Keeps blank where
  index env p tree src s := by
    unfold StorePair.indexer
    dsimp only
    split
    · exact hsave env.files p tree src s
    · rfl
  removed env ps s := blank_deleteFiles s ps
  clear env s := blank_clear s

theorem indexer_clearsTo (id : String) (accepts : Path → Bool)
    (save : FileTree → Path → SyntaxTree → Source → StorePair α β → Outcome (StorePair α β)) :
    (StorePair.indexer id accepts save).ClearsTo blank := by
  intro env p hnone
  change p.clear.2 = none at hnone
  change p.clear.1 = p.blank
  simp only [clear, inFirst, inSecond] at hnone ⊢
  cases hfirst : p.first.clear with
  | error e =>
    rw [hfirst] at hnone
    cases hnone
  | ok s =>
    rw [hfirst] at hnone
    simp only [Except.map, Outcome.ofExcept, Outcome.andThen] at hnone ⊢
    cases hsecond : p.second.clear with
    | error e =>
      rw [hsecond] at hnone
      cases hnone
    | ok t =>
      rw [FactStore.eq_blank_of_clear hfirst, FactStore.eq_blank_of_clear hsecond]
      rfl

end StorePair
end ProjectIndex
