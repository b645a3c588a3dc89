import Mathlib.Data.List.Basic
import Mathlib.Logic.Relation
import ProjectIndex.Tree.Basic

/-!
The recursive pre-order, and the walk with a stack that lists the same nodes. Where all that follows
a node comes later in the array, so many steps as there are nodes go down to every one of them.
-/
namespace ProjectIndex

/-- A node and all that is reached from it by `next`, down to a depth. Each node stands in front of what
is reached through it. -/
def preorder (next : NodeId → List NodeId) : Nat → NodeId → List NodeId
  | 0, i => [i]
  | depth + 1, i => i :: (next i).flatMap (preorder next depth)

def Reached (next : NodeId → List NodeId) : NodeId → NodeId → Prop :=
  Relation.ReflTransGen fun i c => c ∈ next i

def Onward (next : NodeId → List NodeId) (size : Nat) : Prop :=
  ∀ i c : Nat, c ∈ next i → i < c ∧ c < size

section Preorder

variable {next : NodeId → List NodeId} {size depth i j : Nat}

theorem Onward.eq_nil (h : Onward next size) (hi : size ≤ i + 1) : next i = [] := by
  refine List.eq_nil_iff_forall_not_mem.2 fun c hc => ?_
  have := h i c hc
  omega

theorem reached_of_mem_preorder (hj : j ∈ preorder next depth i) : Reached next i j := by
  induction depth generalizing i with
  | zero =>
    rw [preorder, List.mem_singleton] at hj
    exact hj ▸ .refl
  | succ depth ih =>
    rw [preorder, List.mem_cons, List.mem_flatMap] at hj
    rcases hj with rfl | ⟨c, hc, hj⟩
    · exact .refl
    · exact .head hc (ih hj)

theorem Onward.mem_preorder (h : Onward next size) (hdepth : size ≤ i + 1 + depth) :
    j ∈ preorder next depth i ↔ Reached next i j := by
  refine ⟨reached_of_mem_preorder, fun hj => ?_⟩
  induction depth generalizing i with
  | zero =>
    rcases Relation.ReflTransGen.cases_head hj with rfl | ⟨c, hc, _⟩
    · exact List.mem_singleton_self _
    · rw [h.eq_nil hdepth] at hc
      cases hc
  | succ depth ih =>
    rw [preorder, List.mem_cons, List.mem_flatMap]
    rcases Relation.ReflTransGen.cases_head hj with rfl | ⟨c, hc, hbelow⟩
    · exact .inl rfl
    · have hlt := (h i c hc).1
      exact .inr ⟨c, hc, ih (by omega) hbelow⟩

end Preorder

namespace SyntaxTree

variable (t : SyntaxTree) (i : NodeId) (stack : List NodeId)

theorem pushNamed_eq : t.pushNamed i stack = t.namedChildren i ++ stack := by
  rw [pushNamed, List.filter_reverse, List.foldl_reverse, namedChildren]
  induction (t.children i).filter t.isNamed with
  | nil => rfl
  | cons c cs ih => rw [List.foldr_cons, ih, List.cons_append]

@[simp]
theorem visit_nil (steps : Nat) : t.visit steps [] = [] := by
  cases steps with
  | zero => rfl
  | succ steps => rfl

theorem visit_cons (steps : Nat) :
    t.visit (steps + 1) (i :: stack) = i :: t.visit steps (t.namedChildren i ++ stack) := by
  rw [visit, pushNamed_eq]

/-- The walk goes through all that is found below a node before it takes up the rest of the stack. -/
theorem visit_preorder {size : Nat} (h : Onward t.namedChildren size) {depth i : Nat}
    (hdepth : size ≤ i + 1 + depth) (steps : Nat) (stack : List NodeId) :
    t.visit ((preorder t.namedChildren depth i).length + steps) (i :: stack) =
      preorder t.namedChildren depth i ++ t.visit steps stack := by
  induction depth generalizing i steps stack with
  | zero =>
    have hsteps : (preorder t.namedChildren 0 i).length + steps = steps + 1 := Nat.add_comm 1 steps
    rw [hsteps, visit_cons, h.eq_nil hdepth]
    rfl
  | succ depth ih =>
    -- the children come on top of the stack, so they are worked off one by one before the rest of it
    have hbelow : ∀ cs : List NodeId, (∀ c ∈ cs, i < c) → ∀ steps stack,
        t.visit ((cs.flatMap (preorder t.namedChildren depth)).length + steps) (cs ++ stack) =
          cs.flatMap (preorder t.namedChildren depth) ++ t.visit steps stack := by
      intro cs hcs
      induction cs with
      | nil =>
        intro steps stack
        rw [List.flatMap_nil, List.length_nil, Nat.zero_add]
        rfl
      | cons c cs ihcs =>
        intro steps stack
        obtain ⟨hc, hrest⟩ := List.forall_mem_cons.1 hcs
        rw [List.flatMap_cons, List.length_append, Nat.add_assoc, List.cons_append,
          ih (by omega), ihcs hrest, List.append_assoc]
    have hsteps : (preorder t.namedChildren (depth + 1) i).length + steps =
        ((t.namedChildren i).flatMap (preorder t.namedChildren depth)).length + steps + 1 := by
      rw [preorder, List.length_cons]
      omega
    rw [hsteps, visit_cons, hbelow _ fun c hc => (h i c hc).1]
    rfl

end SyntaxTree
end ProjectIndex
