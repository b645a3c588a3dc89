import ProjectIndex.Proofs.Engine.Scribes
import ProjectIndex.Proofs.Store.History

/-!
Two stores that hold the facts of the same files. Saving a file, deleting files and clearing keep
the two in step, and none of it fails while both stores are open. So an indexer that does nothing
else to its stores holds each file in both of them by what it was indexed with last, whatever calls
it got.
-/
namespace ProjectIndex

namespace FactStore

variable {α : Type} {s : FactStore α} {latest : Path → FileFacts α}

theorem Holds.taking (h : s.Holds latest) (p : Path) (facts : FileFacts α) :
    (s.taking p (some facts)).Holds (Function.update latest p facts) :=
  ⟨h.isOpen, ofFile_foldl_saveFile [(p, facts)] h.rows⟩

theorem Holds.without (h : s.Holds latest) (ps : List Path) :
    (s.without ps).Holds fun g => if g ∈ ps then [] else latest g := by
  refine ⟨h.isOpen, fun g => ?_⟩
  change Rows.ofFile g (Rows.deleteFiles s.rows ps) = _
  rw [Rows.ofFile_deleteFiles, h.rows]
  split <;> rfl

theorem Holds.blank (h : s.Holds latest) : s.blank.Holds fun _ => [] :=
  ⟨h.isOpen, fun _ => rfl⟩

end FactStore

namespace StorePair

variable {α β : Type} {s : StorePair α β} {latest : Path → FileFacts α × FileFacts β}

structure Holds (s : StorePair α β) (latest : Path → FileFacts α × FileFacts β) : Prop where
  first : s.first.Holds fun g => (latest g).1
  second : s.second.Holds fun g => (latest g).2

theorem Holds.isOpen (h : s.Holds latest) : s.IsOpen := ⟨h.first.isOpen, h.second.isOpen⟩

theorem Holds.save (h : s.Holds latest) (p : Path) (facts : FileFacts α × FileFacts β) :
    (s.save p facts).2 = none ∧ (s.save p facts).1.Holds (Function.update latest p facts) := by
  have hfirst : (fun g => (Function.update latest p facts g).1) =
      Function.update (fun g => (latest g).1) p facts.1 :=
    funext (Function.apply_update (fun _ pair => pair.1) latest p facts)
  have hsecond : (fun g => (Function.update latest p facts g).2) =
      Function.update (fun g => (latest g).2) p facts.2 :=
    funext (Function.apply_update (fun _ pair => pair.2) latest p facts)
  rw [save_eq h.isOpen]
  refine ⟨rfl, ?_, ?_⟩
  · rw [hfirst]
    exact h.first.taking p facts.1
  · rw [hsecond]
    exact h.second.taking p facts.2

theorem Holds.deleteFiles (h : s.Holds latest) (ps : List Path) :
    (s.deleteFiles ps).2 = none ∧
      (s.deleteFiles ps).1.Holds fun g => if g ∈ ps then ([], []) else latest g := by
  have hfirst : (fun g => (if g ∈ ps then ([], []) else latest g).1) =
      fun g => if g ∈ ps then [] else (latest g).1 := funext fun _ => apply_ite ..
  have hsecond : (fun g => (if g ∈ ps then ([], []) else latest g).2) =
      fun g => if g ∈ ps then [] else (latest g).2 := funext fun _ => apply_ite ..
  rw [deleteFiles_eq h.isOpen]
  refine ⟨rfl, ?_, ?_⟩
  · rw [hfirst]
    exact h.first.without ps
  · rw [hsecond]
    exact h.second.without ps

theorem Holds.clear (h : s.Holds latest) :
    s.clear.2 = none ∧ s.clear.1.Holds fun _ => ([], []) := by
  rw [clear_eq h.isOpen]
  exact ⟨rfl, h.first.blank, h.second.blank⟩

end StorePair

inductive Call where
  | index (p : Path) (src : Source)
  | removed (ps : List Path)
  | clear

/-- An indexer that saves to two stores what it reads off a file, and nothing else. -/
structure PairIndexer (α β ρ : Type) extends Indexer (StorePair α β) where
  parse : Source → SyntaxTree
  empty : StorePair α β
  /-- What a file is held by. -/
  reading : Surroundings → Source → ρ
  facts : Path → ρ → FileFacts α × FileFacts β
  holds_empty : empty.Holds fun _ => ([], [])
  index_eq : ∀ env p src s, index env p (parse src) src s =
    if accepts p then s.save p (facts p (reading env src)) else (s, none)
  removed_eq : ∀ env ps s, removed env ps s = s.deleteFiles ps
  clear_eq : ∀ env s, clear env s = s.clear

namespace PairIndexer

variable {α β ρ : Type} (i : PairIndexer α β ρ) {s : StorePair α β} {held : Path → Option ρ}

def make (env : Surroundings) : Call → StorePair α β → Outcome (StorePair α β)
  | .index p src => i.index env p (i.parse src) src
  | .removed ps => i.removed env ps
  | .clear => i.clear env

def latest (env : Surroundings) (before : Path → Option ρ) : Call → Path → Option ρ
  | .index p src =>
    if i.accepts p then Function.update before p (some (i.reading env src)) else before
  | .removed ps => fun g => if g ∈ ps then none else before g
  | .clear => fun _ => none

def storesAfter (calls : List (Surroundings × Call)) : StorePair α β :=
  calls.foldl (fun s c => (i.make c.1 c.2 s).1) i.empty

/-- What each file was indexed with last, unless it was dropped since. -/
def latestAfter (calls : List (Surroundings × Call)) : Path → Option ρ :=
  calls.foldl (fun before c => i.latest c.1 before c.2) fun _ => none

def factsOf (g : Path) : Option ρ → FileFacts α × FileFacts β
  | none => ([], [])
  | some x => i.facts g x

theorem holds_make (h : s.Holds fun g => i.factsOf g (held g)) (env : Surroundings) (c : Call) :
    (i.make env c s).2 = none ∧
      (i.make env c s).1.Holds fun g => i.factsOf g (i.latest env held c g) := by
  cases c with
  | index p src =>
    let x := i.reading env src
    by_cases haccepts : i.accepts p = true
    · have hmake : i.make env (.index p src) s = s.save p (i.facts p x) :=
        (i.index_eq env p src s).trans (if_pos haccepts)
      have hlatest : i.latest env held (.index p src) = Function.update held p (some x) :=
        if_pos haccepts
      have hfacts : (fun g => i.factsOf g (Function.update held p (some x) g)) =
          Function.update (fun g => i.factsOf g (held g)) p (i.facts p x) :=
        funext (Function.apply_update i.factsOf held p (some x))
      rw [hmake, hlatest, hfacts]
      exact h.save p (i.facts p x)
    · -- A file of another kind changes neither the stores nor what they are to hold.
      have hmake : i.make env (.index p src) s = (s, none) :=
        (i.index_eq env p src s).trans (if_neg haccepts)
      have hlatest : i.latest env held (.index p src) = held := if_neg haccepts
      rw [hmake, hlatest]
      exact ⟨rfl, h⟩
  | removed ps =>
    have hmake : i.make env (.removed ps) s = s.deleteFiles ps := i.removed_eq env ps s
    have hfacts : (fun g => i.factsOf g (i.latest env held (.removed ps) g)) =
        fun g => if g ∈ ps then ([], []) else i.factsOf g (held g) := funext fun _ => apply_ite ..
    rw [hmake, hfacts]
    exact h.deleteFiles ps
  | clear =>
    have hmake : i.make env .clear s = s.clear := i.clear_eq env s
    rw [hmake]
    exact h.clear

theorem holds_run (h : s.Holds fun g => i.factsOf g (held g))
    (calls : List (Surroundings × Call)) :
    (calls.foldl (fun s c => (i.make c.1 c.2 s).1) s).Holds fun g =>
      i.factsOf g (calls.foldl (fun before c => i.latest c.1 before c.2) held g) := by
  induction calls generalizing s held with
  | nil => exact h
  | cons c calls ih => exact ih (i.holds_make h c.1 c.2).2

theorem holds_storesAfter (calls : List (Surroundings × Call)) :
    (i.storesAfter calls).Holds fun g => i.factsOf g (i.latestAfter calls g) :=
  i.holds_run i.holds_empty calls

theorem accepts_of_latest (h : ∀ g x, held g = some x → i.accepts g = true) (env : Surroundings)
    (c : Call) {g : Path} {x : ρ} (hx : i.latest env held c g = some x) : i.accepts g = true := by
  cases c with
  | index p src =>
    by_cases haccepts : i.accepts p = true
    · rw [latest, if_pos haccepts] at hx
      rcases eq_or_ne g p with rfl | hne
      · exact haccepts
      · rw [Function.update_of_ne hne] at hx
        exact h g x hx
    · rw [latest, if_neg haccepts] at hx
      exact h g x hx
  | removed ps =>
    change (if g ∈ ps then none else held g) = some x at hx
    split at hx
    · cases hx
    · exact h g x hx
  | clear => cases hx

theorem accepts_of_latestAfter (calls : List (Surroundings × Call)) {g : Path} {x : ρ}
    (hx : i.latestAfter calls g = some x) : i.accepts g = true := by
  induction calls using List.reverseRecOn generalizing g x with
  | nil => cases hx
  | append_singleton calls c ih =>
    rw [latestAfter, List.foldl_append] at hx
    exact i.accepts_of_latest (fun _ _ => ih) c.1 c.2 hx

end PairIndexer
end ProjectIndex
