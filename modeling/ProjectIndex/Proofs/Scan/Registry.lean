import Mathlib.Data.List.Basic
import ProjectIndex.Scan.Scanner

/-!
The contract of registered indexers. Each keeps facts by file. A successful indexing replaces the
facts of one file by those of its source; a failed one may leave anything for that file. Removing
and clearing succeed. From this follows what a scanner's rounds of calls leave behind.
-/
namespace ProjectIndex

/-- Indexers in the order of their registration, the facts each holds for a file, and the facts each
takes from a source. `sound` tells the states in which the stores can be used. -/
structure Registry (σ : Type) where
  Slot : Type
  order : List Slot
  indexer : Slot → Indexer σ
  Fact : Slot → Type
  held : (i : Slot) → σ → Path → List (Fact i)
  extract : (i : Slot) → Path → Source → List (Fact i)
  sound : σ → Prop

namespace Registry

variable {σ : Type}

def indexers (R : Registry σ) : List (Indexer σ) := R.order.map R.indexer

def accepts (R : Registry σ) (i : R.Slot) (p : Path) : Prop := (R.indexer i).accepts p = true

/-- Indexing touches the facts of one indexer for one file. When it succeeds they are those of the
source; a source without a tree has none. -/
structure Replaces (R : Registry σ) : Prop where
  sound : ∀ i env p tree src s, R.sound s → R.sound ((R.indexer i).index env p tree src s).1
  frame : ∀ i env p tree src s, R.sound s → ∀ j q, j ≠ i ∨ q ≠ p →
    R.held j ((R.indexer i).index env p tree src s).1 q = R.held j s q
  held : ∀ i env p tree src s, R.sound s → R.accepts i p → parsePath p src = .ok tree →
    ((R.indexer i).index env p tree src s).2 = none →
    R.held i ((R.indexer i).index env p tree src s).1 p = R.extract i p src
  unparsed : ∀ i p src e, parsePath p src = .error e → R.extract i p src = []

/-- Removing files and clearing never fail. They drop the facts of one indexer, for the files or
altogether. -/
structure Drops (R : Registry σ) : Prop where
  removed_sound : ∀ i env ps s, R.sound s → R.sound ((R.indexer i).removed env ps s).1
  removed_ok : ∀ i env ps s, R.sound s → ((R.indexer i).removed env ps s).2 = none
  removed_frame : ∀ i env ps s, R.sound s → ∀ j q, j ≠ i ∨ q ∉ ps →
    R.held j ((R.indexer i).removed env ps s).1 q = R.held j s q
  removed_held : ∀ i env ps s, R.sound s → ∀ q ∈ ps,
    R.held i ((R.indexer i).removed env ps s).1 q = []
  clear_sound : ∀ i env s, R.sound s → R.sound ((R.indexer i).clear env s).1
  clear_ok : ∀ i env s, R.sound s → ((R.indexer i).clear env s).2 = none
  clear_frame : ∀ i env s, R.sound s → ∀ j q, j ≠ i →
    R.held j ((R.indexer i).clear env s).1 q = R.held j s q
  clear_held : ∀ i env s, R.sound s → ∀ q, R.held i ((R.indexer i).clear env s).1 q = []

/-- Removing files and clearing may fail. They touch the facts of one indexer only, for the files or
altogether, and when they succeed none of these are left. -/
structure Forgets (R : Registry σ) : Prop where
  removed_sound : ∀ i env ps s, R.sound s → R.sound ((R.indexer i).removed env ps s).1
  removed_frame : ∀ i env ps s, R.sound s → ∀ j q, j ≠ i ∨ q ∉ ps →
    R.held j ((R.indexer i).removed env ps s).1 q = R.held j s q
  removed_held : ∀ i env ps s, R.sound s → ((R.indexer i).removed env ps s).2 = none →
    ∀ q ∈ ps, R.held i ((R.indexer i).removed env ps s).1 q = []
  clear_sound : ∀ i env s, R.sound s → R.sound ((R.indexer i).clear env s).1
  clear_frame : ∀ i env s, R.sound s → ∀ j q, j ≠ i →
    R.held j ((R.indexer i).clear env s).1 q = R.held j s q
  clear_held : ∀ i env s, R.sound s → ((R.indexer i).clear env s).2 = none →
    ∀ q, R.held i ((R.indexer i).clear env s).1 q = []

variable {R : Registry σ}

theorem Drops.forgets (hR : R.Drops) : R.Forgets where
  removed_sound := hR.removed_sound
  removed_frame := hR.removed_frame
  removed_held i env ps s hs _ := hR.removed_held i env ps s hs
  clear_sound := hR.clear_sound
  clear_frame := hR.clear_frame
  clear_held i env s hs _ := hR.clear_held i env s hs

/-- A round of indexing touches the called indexers only, and only the file. If no call fails, each
called indexer holds what it takes from the source. -/
theorem Replaces.callEach (hR : R.Replaces) (env : Surroundings) {p : Path} {tree : SyntaxTree}
    {src : Source} (htree : parsePath p src = .ok tree) (is : List R.Slot)
    (haccepts : ∀ i ∈ is, R.accepts i p) {facts : σ} (hs : R.sound facts) :
    let o := Scanner.callEach (fun i => i.index env p tree src) (is.map R.indexer) facts
    R.sound o.1 ∧ (∀ j q, j ∉ is ∨ q ≠ p → R.held j o.1 q = R.held j facts q) ∧
      (o.2 = 0 → ∀ i ∈ is, R.held i o.1 p = R.extract i p src) := by
  induction is generalizing facts with
  | nil => exact ⟨hs, fun _ _ _ => rfl, fun _ _ hi => absurd hi List.not_mem_nil⟩
  | cons i is ih =>
    have hs₁ := hR.sound i env p tree src facts hs
    obtain ⟨hs', hframe', hheld'⟩ := ih (fun j hj => haccepts j (List.mem_cons_of_mem _ hj)) hs₁
    simp only [List.map_cons, Scanner.callEach]
    refine ⟨hs', fun j q hjq => ?_, fun hzero j hj => ?_⟩
    · have hrest : j ∉ is ∨ q ≠ p := hjq.imp_left fun h hj => h (List.mem_cons_of_mem _ hj)
      have hfirst : j ≠ i ∨ q ≠ p :=
        hjq.imp_left fun h (hji : j = i) => h (hji ▸ List.mem_cons_self ..)
      rw [hframe' j q hrest, hR.frame i env p tree src facts hs j q hfirst]
    · obtain ⟨hfirst, hrest⟩ := Nat.add_eq_zero_iff.1 hzero
      by_cases hjs : j ∈ is
      · exact hheld' hrest j hjs
      · -- The last call on this indexer was the first of the round.
        have hji : j = i := (List.mem_cons.1 hj).resolve_right hjs
        subst hji
        rw [hframe' j p (.inl hjs)]
        apply hR.held j env p tree src facts hs (haccepts j (List.mem_cons_self ..)) htree
        cases ho : ((R.indexer j).index env p tree src facts).2 with
        | none => rfl
        | some e => simp [ho] at hfirst

theorem Forgets.callEach (hR : R.Forgets) (env : Surroundings) (ps : List Path) (is : List R.Slot)
    {facts : σ} (hs : R.sound facts) :
    let o := Scanner.callEach (fun i => i.removed env ps) (is.map R.indexer) facts
    R.sound o.1 ∧ (∀ j q, j ∉ is ∨ q ∉ ps → R.held j o.1 q = R.held j facts q) ∧
      (o.2 = 0 → ∀ i ∈ is, ∀ q ∈ ps, R.held i o.1 q = []) := by
  induction is generalizing facts with
  | nil => exact ⟨hs, fun _ _ _ => rfl, fun _ _ hi => absurd hi List.not_mem_nil⟩
  | cons i is ih =>
    have hs₁ := hR.removed_sound i env ps facts hs
    obtain ⟨hs', hframe', hheld'⟩ := ih hs₁
    simp only [List.map_cons, Scanner.callEach]
    refine ⟨hs', fun j q hjq => ?_, fun hzero j hj q hq => ?_⟩
    · have hrest : j ∉ is ∨ q ∉ ps := hjq.imp_left fun h hj => h (List.mem_cons_of_mem _ hj)
      have hfirst : j ≠ i ∨ q ∉ ps :=
        hjq.imp_left fun h (hji : j = i) => h (hji ▸ List.mem_cons_self ..)
      rw [hframe' j q hrest, hR.removed_frame i env ps facts hs j q hfirst]
    · obtain ⟨hfirst, hrest⟩ := Nat.add_eq_zero_iff.1 hzero
      by_cases hjs : j ∈ is
      · exact hheld' hrest j hjs q hq
      · have hji : j = i := (List.mem_cons.1 hj).resolve_right hjs
        subst hji
        have hok : ((R.indexer j).removed env ps facts).2 = none := by
          cases ho : ((R.indexer j).removed env ps facts).2 with
          | none => rfl
          | some e => simp [ho] at hfirst
        rw [hframe' j q (.inl hjs), hR.removed_held j env ps facts hs hok q hq]

theorem Drops.callEach (hR : R.Drops) (env : Surroundings) (ps : List Path) (is : List R.Slot)
    {facts : σ} (hs : R.sound facts) :
    let o := Scanner.callEach (fun i => i.removed env ps) (is.map R.indexer) facts
    R.sound o.1 ∧ o.2 = 0 ∧ (∀ j q, j ∉ is ∨ q ∉ ps → R.held j o.1 q = R.held j facts q) ∧
      ∀ i ∈ is, ∀ q ∈ ps, R.held i o.1 q = [] := by
  induction is generalizing facts with
  | nil => exact ⟨hs, rfl, fun _ _ _ => rfl, fun _ hi => absurd hi List.not_mem_nil⟩
  | cons i is ih =>
    have hs₁ := hR.removed_sound i env ps facts hs
    obtain ⟨hs', hzero', hframe', hheld'⟩ := ih hs₁
    simp only [List.map_cons, Scanner.callEach]
    refine ⟨hs', ?_, fun j q hjq => ?_, fun j hj q hq => ?_⟩
    · rw [hR.removed_ok i env ps facts hs, hzero']
      rfl
    · have hrest : j ∉ is ∨ q ∉ ps := hjq.imp_left fun h hj => h (List.mem_cons_of_mem _ hj)
      have hfirst : j ≠ i ∨ q ∉ ps :=
        hjq.imp_left fun h (hji : j = i) => h (hji ▸ List.mem_cons_self ..)
      rw [hframe' j q hrest, hR.removed_frame i env ps facts hs j q hfirst]
    · by_cases hjs : j ∈ is
      · exact hheld' j hjs q hq
      · have hji : j = i := (List.mem_cons.1 hj).resolve_right hjs
        subst hji
        rw [hframe' j q (.inl hjs), hR.removed_held j env ps facts hs q hq]

theorem Drops.callUntilFailure (hR : R.Drops) (env : Surroundings) (is : List R.Slot) {facts : σ}
    (hs : R.sound facts) :
    let o := Scanner.callUntilFailure (fun i => i.clear env) (is.map R.indexer) facts
    R.sound o.1 ∧ o.2 = none ∧ (∀ j q, j ∉ is → R.held j o.1 q = R.held j facts q) ∧
      ∀ i ∈ is, ∀ q, R.held i o.1 q = [] := by
  induction is generalizing facts with
  | nil => exact ⟨hs, rfl, fun _ _ _ => rfl, fun _ hi => absurd hi List.not_mem_nil⟩
  | cons i is ih =>
    have hs₁ := hR.clear_sound i env facts hs
    obtain ⟨hs', hnone', hframe', hheld'⟩ := ih hs₁
    have hcall : Scanner.callUntilFailure (fun i => i.clear env) ((i :: is).map R.indexer) facts =
        Scanner.callUntilFailure (fun i => i.clear env) (is.map R.indexer)
          ((R.indexer i).clear env facts).1 := by
      have hok := hR.clear_ok i env facts hs
      simp only [List.map_cons, Scanner.callUntilFailure]
      split
      · next hres => rw [hres]
      · next hres => simp [hres] at hok
    rw [hcall]
    refine ⟨hs', hnone', fun j q hj => ?_, fun j hj q => ?_⟩
    · have hrest : j ∉ is := fun h => hj (List.mem_cons_of_mem _ h)
      have hfirst : j ≠ i := fun h => hj (h ▸ List.mem_cons_self ..)
      rw [hframe' j q hrest, hR.clear_frame i env facts hs j q hfirst]
    · by_cases hjs : j ∈ is
      · exact hheld' j hjs q
      · have hji : j = i := (List.mem_cons.1 hj).resolve_right hjs
        subst hji
        rw [hframe' j q hjs, hR.clear_held j env facts hs q]

end Registry
end ProjectIndex
