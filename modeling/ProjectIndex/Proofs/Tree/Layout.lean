import Mathlib.Data.List.Basic
import ProjectIndex.Tree.Shape

/-!
How a nested tree lies in the array of its nodes: a node, then everything below it, child by child.
So a part of a tree fills a range of ids of its own, and what is said about the parts of a nested
tree can be read off its nodes.
-/
namespace ProjectIndex

def pointOf (src : Source) (offset : Nat) : Point := (TreeBuilder.new src).pointAt offset

namespace Shape

def isNamed : Shape → Bool
  | .leaf _ named _ _ _ => named
  | .node _ named _ _ _ _ => named

def isError : Shape → Bool
  | .leaf _ _ error _ _ => error
  | .node _ _ error _ _ _ => error

mutual

def size : Shape → Nat
  | .leaf .. => 1
  | .node _ _ _ _ _ children => sizeAll children + 1

def sizeAll : List Shape → Nat
  | [] => 0
  | s :: rest => s.size + sizeAll rest

end

def ids (k : Nat) : List Shape → List NodeId
  | [] => []
  | s :: rest => k :: ids (k + s.size) rest

def toNode (src : Source) (parent : Option NodeId) (k : Nat) (s : Shape) : Node :=
  ⟨s.kind, s.isNamed, s.isError, s.start, s.stop, pointOf src s.start, pointOf src s.stop, parent,
    (ids (k + 1) s.children).toArray⟩

mutual

/-- Whether a shape fills the ids from `k` on, below the given parent. -/
def Laid (src : Source) (node : NodeId → Node) (parent : Option NodeId) (k : Nat) : Shape → Prop
  | .leaf kind named error start stop =>
    node k = toNode src parent k (.leaf kind named error start stop)
  | .node kind named error start stop children =>
    node k = toNode src parent k (.node kind named error start stop children) ∧
      LaidAll src node k (k + 1) children

def LaidAll (src : Source) (node : NodeId → Node) (parent k : Nat) : List Shape → Prop
  | [] => True
  | s :: rest => Laid src node (some parent) k s ∧ LaidAll src node parent (k + s.size) rest

end

variable {src : Source} {node node' : NodeId → Node} {parent : Option NodeId} {p k : Nat}
  {s : Shape} {xs ys : List Shape}

theorem size_eq (s : Shape) : s.size = sizeAll s.children + 1 := by
  cases s with
  | leaf => simp [size, sizeAll, children]
  | node => simp [size, children]

theorem laid_iff :
    Laid src node parent k s ↔
      node k = s.toNode src parent k ∧ LaidAll src node k (k + 1) s.children := by
  cases s with
  | leaf => simp [Laid, LaidAll, children]
  | node => simp [Laid, children]

theorem sizeAll_append : sizeAll (xs ++ ys) = sizeAll xs + sizeAll ys := by
  induction xs with
  | nil => simp [sizeAll]
  | cons s xs ih => simp [sizeAll, ih, Nat.add_assoc]

theorem ids_append : ids k (xs ++ ys) = ids k xs ++ ids (k + sizeAll xs) ys := by
  induction xs generalizing k with
  | nil => simp [ids, sizeAll]
  | cons s xs ih => simp [ids, sizeAll, ih, Nat.add_assoc]

theorem laidAll_append :
    LaidAll src node p k (xs ++ ys) ↔
      LaidAll src node p k xs ∧ LaidAll src node p (k + sizeAll xs) ys := by
  induction xs generalizing k with
  | nil => simp [LaidAll, sizeAll]
  | cons s xs ih => simp [LaidAll, sizeAll, ih, Nat.add_assoc, and_assoc]

mutual

theorem Laid.congr : ∀ {s : Shape} {parent : Option NodeId} {k : Nat},
    Laid src node parent k s → (∀ i, k ≤ i → i < k + s.size → node' i = node i) →
      Laid src node' parent k s
  | .leaf .., parent, k, h, hsame => by
    rw [Laid, hsame k (Nat.le_refl k) (by simp [size])]
    exact h
  | .node kind named error start stop children, parent, k, h, hsame => by
    obtain ⟨htop, hbelow⟩ := h
    refine ⟨?_, LaidAll.congr hbelow fun i hi hlt => hsame i (by omega) ?_⟩
    · rw [hsame k (Nat.le_refl k) (by simp [size])]
      exact htop
    · rw [size]
      omega

theorem LaidAll.congr : ∀ {xs : List Shape} {p k : Nat},
    LaidAll src node p k xs → (∀ i, k ≤ i → i < k + sizeAll xs → node' i = node i) →
      LaidAll src node' p k xs
  | [], _, _, _, _ => trivial
  | s :: rest, p, k, h, hsame => by
    obtain ⟨hs, hrest⟩ := h
    rw [sizeAll] at hsame
    exact ⟨Laid.congr hs fun i hi hlt => hsame i hi (by omega),
      LaidAll.congr hrest fun i hi hlt => hsame i (by omega) (by omega)⟩

end

theorem LaidAll.of_mem_ids {i : Nat} (h : LaidAll src node p k xs) (hi : i ∈ ids k xs) :
    ∃ c ∈ xs, Laid src node (some p) i c ∧ k ≤ i ∧ i + c.size ≤ k + sizeAll xs := by
  induction xs generalizing k with
  | nil => simp [ids] at hi
  | cons s xs ih =>
    obtain ⟨hs, hrest⟩ := h
    rw [ids, List.mem_cons] at hi
    rw [sizeAll]
    rcases hi with rfl | hi
    · exact ⟨s, List.mem_cons_self .., hs, Nat.le_refl i, by omega⟩
    · obtain ⟨c, hc, hlaid, hle, hfits⟩ := ih hrest hi
      exact ⟨c, List.mem_cons_of_mem _ hc, hlaid, by omega, by omega⟩

section Parts

def Hereditary (P : Shape → Prop) : Prop := ∀ s, P s → ∀ c ∈ s.children, P c

variable {P : Shape → Prop}

def ChildAt (src : Source) (node : NodeId → Node) (P : Shape → Prop) (top i : Nat) : Prop :=
  ∃ p parent s, P s ∧ p < i ∧ p + s.size ≤ top ∧ Laid src node parent p s ∧
    i ∈ ids (p + 1) s.children

theorem ChildAt.mono {top top' i : Nat} (h : ChildAt src node P top i) (hle : top ≤ top') :
    ChildAt src node P top' i := by
  obtain ⟨p, parent, s, hs, hlt, htop, hrest⟩ := h
  exact ⟨p, parent, s, hs, hlt, Nat.le_trans htop hle, hrest⟩

mutual

theorem Laid.childAt (hP : Hereditary P) : ∀ {s : Shape} {parent : Option NodeId} {k i : Nat},
    Laid src node parent k s → P s → k < i → i < k + s.size → ChildAt src node P (k + s.size) i
  | .leaf .., _, _, _, _, _, hki, hi => by
    rw [size] at hi
    omega
  | .node kind named error start stop children, parent, k, i, h, hs, hki, hi => by
    have hbelow : LaidAll src node k (k + 1) children := h.2
    rw [size] at hi
    rcases LaidAll.childAt hP hbelow (fun c hc => hP _ hs c hc) hki (by omega) with hmem | hdeeper
    · exact ⟨k, parent, _, hs, hki, Nat.le_refl _, h, hmem⟩
    · exact hdeeper.mono (by rw [size]; omega)

theorem LaidAll.childAt (hP : Hereditary P) : ∀ {xs : List Shape} {p k i : Nat},
    LaidAll src node p k xs → (∀ c ∈ xs, P c) → k ≤ i → i < k + sizeAll xs →
      i ∈ ids k xs ∨ ChildAt src node P (k + sizeAll xs) i
  | [], _, _, _, _, _, hki, hi => by
    rw [sizeAll] at hi
    omega
  | s :: rest, p, k, i, h, hxs, hki, hi => by
    obtain ⟨hs, hrest⟩ := h
    obtain ⟨hPs, hPrest⟩ := List.forall_mem_cons.1 hxs
    rw [sizeAll] at hi ⊢
    rw [ids, List.mem_cons]
    by_cases hhere : i = k
    · exact .inl (.inl hhere)
    · by_cases hin : i < k + s.size
      · exact .inr ((Laid.childAt hP hs hPs (by omega) hin).mono (by omega))
      · refine (LaidAll.childAt hP hrest hPrest (by omega) (by omega)).imp .inr fun hdeeper => ?_
        exact hdeeper.mono (by omega)

end

/-- Every node is the topmost one of some part. -/
theorem Laid.part (hP : Hereditary P) {i : Nat} (h : Laid src node parent k s) (hs : P s)
    (hki : k ≤ i) (hi : i < k + s.size) :
    ∃ parent' s', P s' ∧ i + s'.size ≤ k + s.size ∧ Laid src node parent' i s' := by
  rcases Nat.lt_or_eq_of_le hki with hlt | rfl
  · obtain ⟨p, _, s', hs', _, htop, hlaid, hmem⟩ := h.childAt hP hs hlt hi
    obtain ⟨c, hc, hchild, _, hfits⟩ := (laid_iff.1 hlaid).2.of_mem_ids hmem
    rw [size_eq] at htop
    exact ⟨some p, c, hP s' hs' c hc, by omega, hchild⟩
  · exact ⟨parent, s, hs, Nat.le_refl _, h⟩

end Parts

end Shape
end ProjectIndex
