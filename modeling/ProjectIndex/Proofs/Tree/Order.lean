import ProjectIndex.Proofs.Tree.Ranges
import ProjectIndex.Proofs.Tree.Reading

/-!
Document order. The ids of a tree that is laid out grow from the first byte to the last: of two
nodes, the one with the smaller id starts no later. The named descendants of the root are listed in
this order, and they are all the named nodes that stand below named nodes only.
-/
namespace ProjectIndex.Shape

variable {t : SyntaxTree} {src : Source} {admitted : Shape → Prop}

mutual

theorem Laid.starts : ∀ {s : Shape} {parent : Option NodeId} {k i j : Nat},
    Laid src t.node parent k s → s.Fits admitted → k ≤ i → i ≤ j → j < k + s.size →
      s.start ≤ (t.node i).startByte ∧ (t.node i).startByte ≤ (t.node j).startByte ∧
        (t.node j).startByte ≤ s.stop
  | .leaf kind named error start stop, parent, k, i, j, h, hfits, hki, hij, hj => by
    rw [size] at hj
    obtain rfl : i = k := by omega
    obtain rfl : j = i := by omega
    rw [(laid_iff.1 h).1]
    exact ⟨Nat.le_refl _, Nat.le_refl _, hfits.le⟩
  | .node kind named error start stop children, parent, k, i, j, h, hfits, hki, hij, hj => by
    obtain ⟨hnode, hbelow⟩ := h
    rw [size] at hj
    have hall : FitAll admitted start stop children := hfits.2
    have hself : (t.node k).startByte = start := congrArg Node.startByte hnode
    change start ≤ _ ∧ _ ∧ _ ≤ stop
    rcases Nat.lt_or_eq_of_le hki with hlt | rfl
    · exact LaidAll.starts hbelow hall hlt hij (by omega)
    · rw [hself]
      rcases Nat.lt_or_eq_of_le hij with hlt | rfl
      · obtain ⟨hlo, _, hhi⟩ := LaidAll.starts hbelow hall hlt (Nat.le_refl j) (by omega)
        exact ⟨Nat.le_refl start, hlo, hhi⟩
      · rw [hself]
        exact ⟨Nat.le_refl start, Nat.le_refl start, hall.le⟩

theorem LaidAll.starts : ∀ {xs : List Shape} {p k i j lo hi : Nat},
    LaidAll src t.node p k xs → FitAll admitted lo hi xs → k ≤ i → i ≤ j → j < k + sizeAll xs →
      lo ≤ (t.node i).startByte ∧ (t.node i).startByte ≤ (t.node j).startByte ∧
        (t.node j).startByte ≤ hi
  | [], _, _, _, _, _, _, _, _, hki, hij, hj => by
    rw [sizeAll] at hj
    omega
  | s :: rest, p, k, i, j, lo, hi, h, hfits, hki, hij, hj => by
    obtain ⟨hs, hrest⟩ := h
    obtain ⟨hlo, hfit, hfits⟩ := hfits
    have hle := hfit.le
    have hend := hfits.le
    rw [sizeAll] at hj
    by_cases hin : i < k + s.size
    · by_cases hjn : j < k + s.size
      · obtain ⟨h₁, h₂, h₃⟩ := Laid.starts hs hfit hki hij hjn
        omega
      · -- one stands below `s`, the other below a later sibling
        obtain ⟨h₁, _, h₂⟩ := Laid.starts hs hfit hki (Nat.le_refl i) hin
        obtain ⟨h₃, _, h₄⟩ :=
          LaidAll.starts hrest hfits (Nat.not_lt.1 hjn) (Nat.le_refl j) (by omega)
        omega
    · obtain ⟨h₁, h₂, h₃⟩ := LaidAll.starts hrest hfits (Nat.not_lt.1 hin) hij (by omega)
      omega

end

mutual

theorem pairwise_reached : ∀ (s : Shape) (k : Nat), (s.reached k).Pairwise (· < ·)
  | .leaf .., _ => List.pairwise_singleton ..
  | .node _ _ _ _ _ children, k => by
    rw [reached]
    refine .cons (fun i hi => ?_) (pairwise_reachedAll children (k + 1))
    exact (range_of_mem_reachedAll hi).1

theorem pairwise_reachedAll : ∀ (xs : List Shape) (k : Nat), (reachedAll k xs).Pairwise (· < ·)
  | [], _ => .nil
  | s :: rest, k => by
    have hrest := pairwise_reachedAll rest (k + s.size)
    rw [reachedAll]
    split
    · refine List.pairwise_append.2 ⟨pairwise_reached s k, hrest, fun i hi j hj => ?_⟩
      exact Nat.lt_of_lt_of_le (range_of_mem_reached hi).2 (range_of_mem_reachedAll hj).1
    · exact hrest

end

theorem mem_reachedAll_of_mem_namedIds {xs : List Shape} {k i : Nat} (h : i ∈ namedIds k xs) :
    i ∈ reachedAll k xs := by
  obtain ⟨before, c, after, rfl, hc, rfl⟩ := exists_of_mem_namedIds h
  rw [reachedAll_append, reachedAll, if_pos hc, reached_eq]
  simp

mutual

theorem Laid.reached_child : ∀ {s : Shape} {parent : Option NodeId} {k p i : Nat},
    Laid src t.node parent k s → p ∈ s.reached k → i ∈ t.namedChildren p → i ∈ s.reached k
  | .leaf .., _, k, p, i, h, hp, hi => by
    rw [reached, List.mem_singleton] at hp
    rw [hp, h.namedChildren_eq] at hi
    cases hi
  | .node kind named error start stop children, parent, k, p, i, h, hp, hi => by
    rw [reached, List.mem_cons] at hp ⊢
    right
    rcases hp with rfl | hp
    · rw [h.namedChildren_eq] at hi
      exact mem_reachedAll_of_mem_namedIds hi
    · exact LaidAll.reached_child h.2 hp hi

theorem LaidAll.reached_child : ∀ {xs : List Shape} {q k p i : Nat},
    LaidAll src t.node q k xs → p ∈ reachedAll k xs → i ∈ t.namedChildren p → i ∈ reachedAll k xs
  | [], _, _, _, _, _, hp, _ => by cases hp
  | s :: rest, q, k, p, i, h, hp, hi => by
    obtain ⟨hs, hrest⟩ := h
    rw [reachedAll] at hp ⊢
    split at hp
    · next hnamed =>
      rw [if_pos hnamed]
      rw [List.mem_append] at hp ⊢
      exact hp.imp (Laid.reached_child hs · hi) (LaidAll.reached_child hrest · hi)
    · next hnamed =>
      rw [if_neg hnamed]
      exact LaidAll.reached_child hrest hp hi

end

end ProjectIndex.Shape
