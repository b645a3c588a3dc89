import Mathlib.Data.List.Perm.Subperm
import Mathlib.Data.List.Sort
import ProjectIndex.Proofs.Tree.Ancestry

/-!
Nodes that stand in pre-order in their array. It is enough that each node but the first hangs under the
node just before it, or under one above that: then all that stands below a node fills a range of ids,
and the recursive pre-order lists the ids as they grow.
-/
namespace ProjectIndex.SyntaxTree

def Under (t : SyntaxTree) : NodeId → NodeId → Prop :=
  Relation.ReflTransGen fun i p => t.parent? i = some p

/-- Whether the nodes of a tree stand in pre-order, and know their parents and children. -/
structure InPreorder (t : SyntaxTree) : Prop where
  parentless : ∀ i : Nat, i < t.size → (t.parent? i = none ↔ i = 0)
  parentsFirst : t.ParentsFirst
  children : ∀ p : Nat, t.children p = (List.range t.size).filter fun i => t.parent? i = some p
  onward : ∀ i p : Nat, t.parent? (i + 1) = some p → t.Under i p

variable {t t' : SyntaxTree} {next : NodeId → List NodeId} {depth i j p c d x : Nat}

theorem ParentsFirst.le (h : t.ParentsFirst) (hx : t.Under x c) : c ≤ x := by
  induction hx using Relation.ReflTransGen.head_induction_on with
  | refl => exact Nat.le_refl c
  | head hstep _ ih => exact Nat.le_trans ih (Nat.le_of_lt (h _ _ hstep))

theorem Under.mono (hparents : ∀ i p : Nat, t.parent? i = some p → t'.parent? i = some p)
    (hx : t.Under x c) : t'.Under x c :=
  Relation.ReflTransGen.mono (fun i p hp => hparents i p hp) x c hx

namespace InPreorder

theorem congr (h : t.InPreorder) (hsize : t'.size = t.size)
    (hparents : ∀ i : Nat, t'.parent? i = t.parent? i)
    (hchildren : ∀ i : Nat, t'.children i = t.children i) : t'.InPreorder where
  parentless i hi := by
    rw [hparents]
    exact h.parentless i (hsize ▸ hi)
  parentsFirst i p hp := h.parentsFirst i p (hparents i ▸ hp)
  children p := by
    simp only [hchildren, hsize, hparents]
    exact h.children p
  onward i p hp := (h.onward i p (hparents _ ▸ hp)).mono fun j q hq => (hparents j).trans hq

/-- A node more, under the last one or one above that, as the last child of its parent. -/
theorem grow {parent : Option NodeId} (h : t.InPreorder) (hsize : t'.size = t.size + 1)
    (hparents : ∀ i : Nat, t'.parent? i = if i = t.size then parent else t.parent? i)
    (hchildren : ∀ p : Nat, t'.children p = t.children p ++ if parent = some p then [t.size] else [])
    (hnone : parent = none ↔ t.size = 0)
    (hsome : ∀ p : Nat, parent = some p → p < t.size ∧ t.Under (t.size - 1) p) : t'.InPreorder := by
  have hold : ∀ i : Nat, i < t.size → t'.parent? i = t.parent? i := fun i hi => by
    rw [hparents, if_neg (Nat.ne_of_lt hi)]
  have hlink : ∀ i p : Nat, t.parent? i = some p → t'.parent? i = some p := fun i p hp =>
    (hold i (lt_size_of_parent hp)).trans hp
  refine ⟨fun i hi => ?_, fun i p hp => ?_, fun p => ?_, fun i p hp => ?_⟩
  · rcases Nat.lt_or_eq_of_le (Nat.le_of_lt_succ (hsize ▸ hi)) with hlt | rfl
    · rw [hold i hlt]
      exact h.parentless i hlt
    · rw [hparents, if_pos rfl]
      exact hnone
  · rw [hparents] at hp
    split at hp
    · next hi =>
      rw [hi]
      exact (hsome p hp).1
    · exact h.parentsFirst i p hp
  · have hsame : (List.range t.size).filter (fun i => decide (t'.parent? i = some p)) =
        (List.range t.size).filter fun i => decide (t.parent? i = some p) :=
      List.filter_congr fun i hi => by rw [hold i (List.mem_range.1 hi)]
    rw [hchildren, hsize, List.range_succ, List.filter_append, hsame, h.children, List.filter_cons,
      hparents, if_pos rfl, List.filter_nil]
    simp only [decide_eq_true_eq]
  · rw [hparents] at hp
    split at hp
    · next hi =>
      rw [← hi] at hsome
      exact (hsome p hp).2.mono hlink
    · exact (h.onward i p hp).mono hlink

theorem mem_children (h : t.InPreorder) : c ∈ t.children p ↔ t.parent? c = some p := by
  rw [h.children, List.mem_filter, List.mem_range, decide_eq_true_eq]
  exact ⟨And.right, fun hc => ⟨lt_size_of_parent hc, hc⟩⟩

theorem pairwise_children (h : t.InPreorder) (p : Nat) : (t.children p).Pairwise (· < ·) := by
  rw [h.children]
  exact List.pairwise_lt_range.filter _

theorem mem_namedChildren (h : t.InPreorder) :
    c ∈ t.namedChildren p ↔ t.parent? c = some p ∧ t.isNamed c = true := by
  rw [namedChildren, List.mem_filter, h.mem_children]

theorem pairwise_namedChildren (h : t.InPreorder) (p : Nat) :
    (t.namedChildren p).Pairwise (· < ·) := (h.pairwise_children p).filter _

theorem under_root (h : t.InPreorder) (hi : i < t.size) : t.Under i 0 := by
  induction i using Nat.strongRecOn with
  | _ i ih =>
    cases hp : t.parent? i with
    | none => exact (h.parentless i hi).1 hp ▸ .refl
    | some p =>
      have hlt := h.parentsFirst i p hp
      exact .head hp (ih p hlt (Nat.lt_trans hlt hi))

theorem lt_of_under (h : t.InPreorder) (hc : t.parent? c = some p) (hd : t.parent? d = some p)
    (hlt : c < d) (hx : t.Under x c) : x < d := by
  by_contra hle
  -- by induction from the sibling on: each node hangs under the one before it or above that
  have hbehind : ∀ x, d ≤ x → ¬ t.Under x c := by
    intro x hdx
    induction x, hdx using Nat.le_induction with
    | base =>
      intro hunder
      rcases Relation.ReflTransGen.cases_head hunder with rfl | ⟨q, hq, habove⟩
      · exact Nat.lt_irrefl _ hlt
      · obtain rfl : p = q := Option.some.inj (hd.symm.trans hq)
        have hpc := h.parentsFirst c p hc
        have hcp := h.parentsFirst.le habove
        omega
    | succ x hdx ih =>
      intro hunder
      rcases Relation.ReflTransGen.cases_head hunder with rfl | ⟨q, hq, habove⟩
      · exact Nat.lt_irrefl _ (Nat.lt_trans hlt (Nat.lt_succ_of_le hdx))
      · exact ih ((h.onward x q hq).trans habove)
  exact hbehind x (Nat.le_of_not_lt hle) hx

section Preorder

variable (h : t.InPreorder) (hsub : ∀ i : Nat, (next i).Sublist (t.children i))

include h hsub

theorem onward_of_sublist : Onward next t.size := fun i c hc => by
  have hparent := h.mem_children.1 ((hsub i).subset hc)
  exact ⟨h.parentsFirst c i hparent, lt_size_of_parent hparent⟩

theorem under_of_reached (hj : Reached next i j) : t.Under j i := by
  induction hj with
  | refl => exact .refl
  | tail _ hstep ih => exact .head (h.mem_children.1 ((hsub _).subset hstep)) ih

theorem pairwise_preorder (depth i : Nat) : (ProjectIndex.preorder next depth i).Pairwise (· < ·) := by
  induction depth generalizing i with
  | zero => exact List.pairwise_singleton ..
  | succ depth ih =>
    have hunder : ∀ c x : Nat, x ∈ ProjectIndex.preorder next depth c → t.Under x c := fun c x hx =>
      h.under_of_reached hsub (reached_of_mem_preorder hx)
    have hparent : ∀ c ∈ next i, t.parent? c = some i := fun c hc =>
      h.mem_children.1 ((hsub i).subset hc)
    -- the node comes before all below it, and all below one child before the next child
    refine .cons (fun x hx => ?_) (List.pairwise_flatMap.2 ⟨fun c _ => ih c, ?_⟩)
    · obtain ⟨c, hc, hxc⟩ := List.mem_flatMap.1 hx
      exact Nat.lt_of_lt_of_le (h.parentsFirst c i (hparent c hc))
        (h.parentsFirst.le (hunder c x hxc))
    · refine (List.Pairwise.and_mem.1 ((h.pairwise_children i).sublist (hsub i))).imp ?_
      rintro c d ⟨hc, hd, hlt⟩ x hx y hy
      exact Nat.lt_of_lt_of_le
        (h.lt_of_under (hparent c hc) (hparent d hd) hlt (hunder c x hx))
        (h.parentsFirst.le (hunder d y hy))

theorem length_preorder_le (hi : i < t.size) (depth : Nat) :
    (ProjectIndex.preorder next depth i).length ≤ t.size := by
  have hsubset : ProjectIndex.preorder next depth i ⊆ List.range t.size := by
    intro j hj
    rw [List.mem_range]
    rcases Relation.ReflTransGen.cases_tail (reached_of_mem_preorder hj) with rfl | ⟨q, _, hstep⟩
    · exact hi
    · exact (h.onward_of_sublist hsub q j hstep).2
  have hnodup : (ProjectIndex.preorder next depth i).Nodup :=
    (h.pairwise_preorder hsub depth i).imp Nat.ne_of_lt
  exact (hnodup.subperm hsubset).length_le.trans (Nat.le_of_eq List.length_range)

end Preorder

/-- The walk with a stack lists the recursive pre-order. -/
theorem descendants_eq (h : t.InPreorder) (hi : i < t.size) (hdepth : t.size ≤ i + 1 + depth) :
    t.descendants i = ProjectIndex.preorder t.namedChildren depth i := by
  have hsub : ∀ i : Nat, (t.namedChildren i).Sublist (t.children i) := fun _ => List.filter_sublist
  obtain ⟨steps, hsteps⟩ := Nat.exists_eq_add_of_le (h.length_preorder_le hsub hi depth)
  rw [descendants, hsteps, t.visit_preorder (h.onward_of_sublist hsub) hdepth, visit_nil,
    List.append_nil]

theorem preorder_children (h : t.InPreorder) (hpos : 0 < t.size) (hdepth : t.size ≤ depth) :
    ProjectIndex.preorder t.children depth 0 = List.range t.size := by
  have hsub : ∀ i : Nat, (t.children i).Sublist (t.children i) := fun _ => List.Sublist.refl _
  have honward := h.onward_of_sublist hsub
  refine (h.pairwise_preorder hsub depth 0).eq_of_mem_iff List.pairwise_lt_range fun j => ?_
  rw [honward.mem_preorder (by omega), List.mem_range]
  constructor
  · intro hj
    rcases Relation.ReflTransGen.cases_tail hj with rfl | ⟨q, _, hstep⟩
    · exact hpos
    · exact (honward q j hstep).2
  · intro hj
    refine Relation.reflTransGen_swap.1 (Relation.ReflTransGen.mono ?_ _ _ (h.under_root hj))
    exact fun i p hp => h.mem_children.2 hp

end InPreorder
end ProjectIndex.SyntaxTree
