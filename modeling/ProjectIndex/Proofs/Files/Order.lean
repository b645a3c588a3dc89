import Mathlib.Data.List.Basic
import ProjectIndex.Path.Order

/-!
The order of paths. Paths compare by their components, so that two paths stand before each other
exactly when they name the same place. A request that is sorted and rid of neighbours at the same
place names every place once.
-/
namespace ProjectIndex.Path

def Component.name : Component → List Char
  | .normal n => n
  | _ => []

theorem Component.compare_eq :
    Component.compare = compareLex (compareOn Component.rank) (compareOn Component.name) := by
  funext a b
  cases a <;> cases b <;> rfl

instance : Std.TransCmp Component.compare := by
  rw [Component.compare_eq]
  infer_instance

instance : Std.LawfulEqCmp Component.compare where
  compare_self := Std.ReflCmp.compare_self
  eq_of_compare := by
    intro a b h
    rw [Component.compare_eq, compareLex, Ordering.then_eq_eq] at h
    have hrank : a.rank = b.rank := Std.LawfulEqCmp.eq_of_compare h.1
    have hname : a.name = b.name := Std.LawfulEqCmp.eq_of_compare h.2
    cases a <;> cases b <;> cases hrank <;> cases hname <;> rfl

instance : Std.TransCmp compare where
  eq_swap {p q} :=
    @Std.OrientedCmp.eq_swap _ (List.compareLex Component.compare) _ p.components q.components
  isLE_trans {p q r} :=
    @Std.TransCmp.isLE_trans _ (List.compareLex Component.compare) _ p.components q.components
      r.components

theorem before_trans (p q r : Path) (hpq : before p q = true) (hqr : before q r = true) :
    before p r = true := Std.TransCmp.isLE_trans hpq hqr

theorem before_total (p q : Path) : (before p q || before q p) = true := by
  have hswap : compare p q = (compare q p).swap := Std.OrientedCmp.eq_swap
  unfold before
  rw [hswap]
  cases compare q p <;> rfl

theorem same_iff {p q : Path} : same p q = true ↔ p.components = q.components := beq_iff_eq

theorem same_of_before {p q : Path} (hpq : before p q = true) (hqp : before q p = true) :
    same p q = true := by
  have hcompare : List.compareLex Component.compare p.components q.components = .eq :=
    Std.OrientedCmp.isLE_antisymm hpq hqp
  exact same_iff.2 (Std.LawfulEqCmp.eq_of_compare hcompare)

theorem before_congr {p q : Path} (h : same p q = true) (r : Path) :
    before r p = before r q := by
  unfold before compare
  rw [same_iff.1 h]

theorem pairwise_sort (ps : List Path) : (sort ps).Pairwise fun p q => before p q = true :=
  List.pairwise_mergeSort before_trans before_total ps

theorem dedup_sublist (ps : List Path) : (dedup ps).Sublist ps := by
  fun_induction dedup ps with
  | case1 => exact List.Sublist.refl []
  | case2 p ps _ ih => exact List.singleton_sublist.2 (List.mem_cons_self ..)
  | case3 p ps q qs hdedup _ ih =>
    rw [hdedup] at ih
    exact ((List.sublist_cons_self q qs).trans ih).cons_cons p
  | case4 p ps q qs hdedup _ ih =>
    rw [hdedup] at ih
    exact ih.cons_cons p

theorem exists_same_mem_dedup {p : Path} {ps : List Path} (h : p ∈ ps) :
    ∃ q ∈ dedup ps, same p q = true := by
  have hself : ∀ q : Path, same q q = true := fun q => same_iff.2 rfl
  fun_induction dedup ps with
  | case1 => exact absurd h List.not_mem_nil
  | case2 q ps hdedup ih =>
    rcases List.mem_cons.1 h with rfl | hp
    · exact ⟨p, List.mem_singleton_self p, hself p⟩
    · obtain ⟨r, hr, _⟩ := ih hp
      rw [hdedup] at hr
      exact absurd hr List.not_mem_nil
  | case3 q ps r rs hdedup hqr ih =>
    rcases List.mem_cons.1 h with rfl | hp
    · exact ⟨p, List.mem_cons_self .., hself p⟩
    · obtain ⟨x, hx, hpx⟩ := ih hp
      rw [hdedup] at hx
      -- The first of the run stands for the one that is left out.
      rcases List.mem_cons.1 hx with rfl | hx
      · exact ⟨q, List.mem_cons_self .., same_iff.2 ((same_iff.1 hpx).trans (same_iff.1 hqr).symm)⟩
      · exact ⟨x, List.mem_cons_of_mem _ hx, hpx⟩
  | case4 q ps r rs hdedup _ ih =>
    rcases List.mem_cons.1 h with rfl | hp
    · exact ⟨p, List.mem_cons_self .., hself p⟩
    · obtain ⟨x, hx, hpx⟩ := ih hp
      rw [hdedup] at hx
      exact ⟨x, List.mem_cons_of_mem _ hx, hpx⟩

/-- In a sorted list it is enough to compare neighbours. -/
theorem pairwise_dedup {ps : List Path} (h : ps.Pairwise fun p q => before p q = true) :
    (dedup ps).Pairwise fun p q => same p q = false := by
  fun_induction dedup ps with
  | case1 => exact List.Pairwise.nil
  | case2 p ps _ ih => exact List.pairwise_singleton ..
  | case3 p ps q qs hdedup hpq ih =>
    have hrest := ih (List.pairwise_cons.1 h).2
    rw [hdedup, List.pairwise_cons] at hrest
    refine List.pairwise_cons.2 ⟨fun r hr => ?_, hrest.2⟩
    have hqr := hrest.1 r hr
    unfold same at hqr ⊢
    rwa [same_iff.1 hpq]
  | case4 p ps q qs hdedup hpq ih =>
    have hrest := ih (List.pairwise_cons.1 h).2
    rw [hdedup] at hrest
    refine List.pairwise_cons.2 ⟨fun r hr => ?_, hrest⟩
    have hmem : ∀ x ∈ q :: qs, x ∈ ps := fun x hx => (dedup_sublist ps).subset (hdedup ▸ hx)
    have hbefore : ∀ x ∈ q :: qs, before p x = true := fun x hx =>
      (List.pairwise_cons.1 h).1 x (hmem x hx)
    by_contra hsame
    have hpr : same p r = true := by simpa using hsame
    -- Between two spellings of one place there is only that place.
    have hqr : before q r = true := by
      have hsorted : (q :: qs).Pairwise fun p q => before p q = true := by
        rw [← hdedup]
        exact (List.pairwise_cons.1 h).2.sublist (dedup_sublist ps)
      rcases List.mem_cons.1 hr with rfl | hr
      · simpa using before_total r r
      · exact (List.pairwise_cons.1 hsorted).1 r hr
    have hqp : before q p = true := (before_congr hpr q).trans hqr
    exact hpq (same_of_before (hbefore q (List.mem_cons_self ..)) hqp)

theorem nodup_dedup {ps : List Path} (h : ps.Pairwise fun p q => before p q = true) :
    (dedup ps).Nodup := by
  refine (pairwise_dedup h).imp ?_
  rintro p _ hsame rfl
  have hself : same p p = true := same_iff.2 rfl
  exact absurd hself (by simp [hsame])

end ProjectIndex.Path
