import ProjectIndex.Proofs.Tree.Reading

/-!
The nodes above a node. Where every node stands behind its parent, they are the parent and the nodes
above that, up to the root. A tree that is laid out is such a tree, and all that is found below a
node has this node, and those above it, above itself.
-/
namespace ProjectIndex

namespace SyntaxTree

def ParentsFirst (t : SyntaxTree) : Prop := ∀ i p : Nat, t.parent? i = some p → p < i

def above? (t : SyntaxTree) : Nat → NodeId → Option NodeId
  | 0, i => some i
  | k + 1, i => (t.parent? i).bind (t.above? k)

variable {t : SyntaxTree} {i p a n k depth : Nat}

theorem lt_size_of_parent (h : t.parent? i = some p) : i < t.size := by
  by_contra hi
  have hdefault : t.node i = default := by
    rw [node, Array.getD_eq_getD_getElem?, Array.getElem?_eq_none (Nat.le_of_not_lt hi)]
    rfl
  rw [parent?, hdefault] at h
  cases h

theorem ancestorsUpTo_of_root (h : t.parent? i = none) (n : Nat) : t.ancestorsUpTo n i = [] := by
  cases n with
  | zero => rfl
  | succ n => rw [ancestorsUpTo, h]

theorem ancestors_of_root (h : t.parent? i = none) : t.ancestors i = [] :=
  ancestorsUpTo_of_root h t.size

theorem getElem?_ancestorsUpTo (t : SyntaxTree) (n k i : Nat) :
    (t.ancestorsUpTo n i)[k]? = if k < n then t.above? (k + 1) i else none := by
  induction n generalizing k i with
  | zero => rfl
  | succ n ih =>
    rw [ancestorsUpTo, above?]
    cases t.parent? i with
    | none => simp
    | some p =>
      cases k with
      | zero => rfl
      | succ k =>
        dsimp only
        rw [List.getElem?_cons_succ, ih, Option.bind_some]
        simp only [Nat.add_lt_add_iff_right]

theorem length_ancestorsUpTo_le (t : SyntaxTree) (n i : Nat) : (t.ancestorsUpTo n i).length ≤ n := by
  rw [← List.getElem?_eq_none_iff, getElem?_ancestorsUpTo, if_neg (Nat.lt_irrefl n)]

theorem ParentsFirst.add_le_of_above (h : t.ParentsFirst) (ha : t.above? k i = some a) :
    a + k ≤ i := by
  induction k generalizing i with
  | zero => exact Nat.le_of_eq (Option.some.inj ha).symm
  | succ k ih =>
    obtain ⟨p, hp, ha⟩ := Option.bind_eq_some_iff.1 ha
    have hstep := ih ha
    have hlt := h i p hp
    omega

theorem ParentsFirst.ancestorsUpTo_eq (h : t.ParentsFirst) (hn : i ≤ n) :
    t.ancestorsUpTo n i = t.ancestorsUpTo i i := by
  refine List.ext_getElem? fun k => ?_
  rw [getElem?_ancestorsUpTo, getElem?_ancestorsUpTo]
  by_cases hk : k < i
  · rw [if_pos hk, if_pos (Nat.lt_of_lt_of_le hk hn)]
  · have hnone : t.above? (k + 1) i = none :=
      Option.eq_none_iff_forall_ne_some.2 fun a ha => by
        have hsteps := h.add_le_of_above ha
        omega
    rw [hnone, ite_self, ite_self]

theorem ParentsFirst.ancestors_of_parent (h : t.ParentsFirst) (hp : t.parent? i = some p) :
    t.ancestors i = p :: t.ancestors p := by
  have hlt := h i p hp
  have hi := lt_size_of_parent hp
  obtain ⟨n, hsize⟩ := Nat.exists_eq_add_one_of_ne_zero (Nat.ne_zero_of_lt hi)
  have hp_n : p ≤ n := by omega
  rw [ancestors, ancestors, hsize, ancestorsUpTo, hp]
  dsimp only
  rw [h.ancestorsUpTo_eq hp_n, h.ancestorsUpTo_eq (Nat.le_succ_of_le hp_n)]

/-- A bound on the way up leaves the nodes that are no more steps above. -/
theorem ParentsFirst.mem_take_ancestors (h : t.ParentsFirst) :
    a ∈ (t.ancestors i).take depth ↔ ∃ k, 0 < k ∧ k ≤ depth ∧ t.above? k i = some a := by
  rw [List.mem_iff_getElem?]
  simp only [List.getElem?_take, ancestors, getElem?_ancestorsUpTo]
  constructor
  · rintro ⟨k, hk⟩
    split at hk
    · next hdepth =>
      split at hk
      · exact ⟨k + 1, Nat.succ_pos k, hdepth, hk⟩
      · cases hk
    · cases hk
  · rintro ⟨k, hpos, hdepth, ha⟩
    obtain ⟨k, rfl⟩ := Nat.exists_eq_add_one_of_ne_zero (Nat.ne_of_gt hpos)
    obtain ⟨p, hp, _⟩ := Option.bind_eq_some_iff.1 ha
    have hsteps := h.add_le_of_above ha
    have hsize := lt_size_of_parent hp
    exact ⟨k, by rw [if_pos (Nat.lt_of_succ_le hdepth), if_pos (by omega), ha]⟩

end SyntaxTree

namespace Shape

variable {t : SyntaxTree} {src : Source} {root : Shape}

theorem Laid.parentsFirst (h : Laid src t.node none 0 root) (hsize : t.size = root.size) :
    t.ParentsFirst := by
  intro i p hp
  have hi := SyntaxTree.lt_size_of_parent hp
  rcases Nat.eq_zero_or_pos i with rfl | hpos
  · rw [h.parent?_eq] at hp
    cases hp
  · have hall : Hereditary fun _ => True := fun _ _ _ _ => trivial
    obtain ⟨q, _, s, _, hlt, _, hlaid, hmem⟩ := h.childAt hall trivial hpos (by omega)
    obtain ⟨c, _, hchild, _⟩ := hlaid.below.of_mem_ids hmem
    rw [hchild.parent?_eq] at hp
    exact Option.some.inj hp ▸ hlt

mutual

theorem Laid.suffix_ancestors (hfirst : t.ParentsFirst) : ∀ {s : Shape} {parent : Option NodeId}
    {k i : Nat}, Laid src t.node parent k s → i ∈ s.reached k →
      i = k ∨ k :: t.ancestors k <:+ t.ancestors i
  | .leaf .., _, k, i, _, hi => by
    rw [reached, List.mem_singleton] at hi
    exact .inl hi
  | .node kind named error start stop children, _, k, i, h, hi => by
    rw [reached, List.mem_cons] at hi
    rcases hi with rfl | hbelow
    · exact .inl rfl
    · exact .inr (LaidAll.suffix_ancestors hfirst h.below hbelow)

theorem LaidAll.suffix_ancestors (hfirst : t.ParentsFirst) : ∀ {xs : List Shape} {p k i : Nat},
    LaidAll src t.node p k xs → i ∈ reachedAll k xs → p :: t.ancestors p <:+ t.ancestors i
  | [], _, _, _, _, hi => by cases hi
  | s :: rest, p, k, i, h, hi => by
    obtain ⟨hs, hrest⟩ := h
    have habove : t.ancestors k = p :: t.ancestors p := hfirst.ancestors_of_parent hs.parent?_eq
    have hthere : i ∈ s.reached k → p :: t.ancestors p <:+ t.ancestors i := by
      intro hmem
      rcases Laid.suffix_ancestors hfirst hs hmem with rfl | hsuffix
      · exact ⟨[], habove.symm⟩
      · rw [habove] at hsuffix
        exact (List.suffix_cons k _).trans hsuffix
    rw [reachedAll] at hi
    split at hi
    · rcases List.mem_append.1 hi with hmem | hmem
      · exact hthere hmem
      · exact LaidAll.suffix_ancestors hfirst hrest hmem
    · exact LaidAll.suffix_ancestors hfirst hrest hi

end

end Shape
end ProjectIndex
