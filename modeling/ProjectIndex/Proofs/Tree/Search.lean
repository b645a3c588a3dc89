import ProjectIndex.Tree.Pattern
import ProjectIndex.Proofs.Text.Search
import ProjectIndex.Proofs.Tree.Calls

/-!
What a pattern means, and that the search for it finds all nodes for which it holds: those reached from
where the search starts by going down to named children, in the order of the recursive walk.
-/
namespace ProjectIndex

namespace Pattern

section Meaning

variable (t : SyntaxTree) (text : Source)

mutual

def Holds : Pattern → NodeId → Prop
  | .kind k, i => t.kind i = k
  | .anyKind ks, i => t.kind i ∈ ks
  | .text s, i => t.text text i = s.toList
  | .textStart s, i => s.toList <+: t.text text i
  | .textContains s, i => s.toList <:+: t.text text i
  | .hasChild p, i => ∃ c ∈ t.namedChildren i, p.Holds c
  | .ancestor p depth, i => ∃ k, 0 < k ∧ k ≤ depth ∧ ∃ a, t.above? k i = some a ∧ p.Holds a
  | .all ps, i => HoldsAll ps i
  | .any ps, i => HoldsAny ps i
  | .not p, i => ¬ p.Holds i

def HoldsAll : List Pattern → NodeId → Prop
  | [], _ => True
  | p :: ps, i => p.Holds i ∧ HoldsAll ps i

def HoldsAny : List Pattern → NodeId → Prop
  | [], _ => False
  | p :: ps, i => p.Holds i ∨ HoldsAny ps i

end

end Meaning

variable {t : SyntaxTree} {text : Source} {i j : Nat}

@[simp]
theorem holds_all {ps : List Pattern} :
    (Pattern.all ps).Holds t text i ↔ ∀ p ∈ ps, p.Holds t text i := by
  rw [Holds]
  induction ps with
  | nil => simp [HoldsAll]
  | cons p ps ih => rw [HoldsAll, ih, List.forall_mem_cons]

@[simp]
theorem holds_any {ps : List Pattern} :
    (Pattern.any ps).Holds t text i ↔ ∃ p ∈ ps, p.Holds t text i := by
  rw [Holds]
  induction ps with
  | nil => simp [HoldsAny]
  | cons p ps ih => rw [HoldsAny, ih, List.exists_mem_cons_iff]

mutual

theorem matchesNode_iff (h : t.ParentsFirst) : ∀ (p : Pattern) (i : NodeId),
    p.matchesNode t text i = true ↔ p.Holds t text i
  | .kind k, i => beq_iff_eq
  | .anyKind ks, i => by
    simp only [matchesNode, Holds, List.any_eq_true, beq_iff_eq, exists_eq_right']
  | .text s, i => beq_iff_eq
  | .textStart s, i => List.isPrefixOf_iff_prefix
  | .textContains s, i => Text.contains_iff
  | .hasChild p, i => by
    simp only [matchesNode, Holds, List.any_eq_true, matchesNode_iff h p]
  | .ancestor p depth, i => by
    -- the list of ancestors is long enough: no way up has more steps than there are nodes
    simp only [matchesNode, Holds, List.any_eq_true, matchesNode_iff h p, h.mem_take_ancestors]
    constructor
    · rintro ⟨a, ⟨k, hpos, hdepth, ha⟩, hp⟩
      exact ⟨k, hpos, hdepth, a, ha, hp⟩
    · rintro ⟨k, hpos, hdepth, a, ha, hp⟩
      exact ⟨a, ⟨k, hpos, hdepth, ha⟩, hp⟩
  | .all ps, i => matchesAll_iff h ps i
  | .any ps, i => matchesAny_iff h ps i
  | .not p, i => by
    rw [matchesNode, Holds, ← matchesNode_iff h p i, Bool.not_eq_true', Bool.not_eq_true]

theorem matchesAll_iff (h : t.ParentsFirst) : ∀ (ps : List Pattern) (i : NodeId),
    matchesAll t text ps i = true ↔ HoldsAll t text ps i
  | [], i => by simp only [matchesAll, HoldsAll]
  | p :: ps, i => by
    rw [matchesAll, HoldsAll, Bool.and_eq_true, matchesNode_iff h p i, matchesAll_iff h ps i]

theorem matchesAny_iff (h : t.ParentsFirst) : ∀ (ps : List Pattern) (i : NodeId),
    matchesAny t text ps i = true ↔ HoldsAny t text ps i
  | [], i => by simp only [matchesAny, HoldsAny, Bool.false_eq_true]
  | p :: ps, i => by
    rw [matchesAny, HoldsAny, Bool.or_eq_true, matchesNode_iff h p i, matchesAny_iff h ps i]

end

/-- A node farther up is among those a greater bound leaves. -/
theorem Holds.ancestor_mono {p : Pattern} {depth depth' : Nat}
    (hi : (Pattern.ancestor p depth).Holds t text i) (hle : depth ≤ depth') :
    (Pattern.ancestor p depth').Holds t text i := by
  rw [Holds] at hi ⊢
  obtain ⟨k, hpos, hk, a, ha, hp⟩ := hi
  exact ⟨k, hpos, Nat.le_trans hk hle, a, ha, hp⟩

section Finding

variable (h : t.InPreorder) (hi : i < t.size) (p : Pattern)

include h hi

theorem findAll_eq {depth : Nat} (hdepth : t.size ≤ i + 1 + depth) :
    p.findAll t text i = (preorder t.namedChildren depth i).filter (p.matchesNode t text) := by
  rw [findAll, h.descendants_eq hi hdepth]

theorem mem_findAll : j ∈ p.findAll t text i ↔ Reached t.namedChildren i j ∧ p.Holds t text j := by
  have hdepth : t.size ≤ i + 1 + t.size := by omega
  have honward : Onward t.namedChildren t.size :=
    h.onward_of_sublist fun _ => List.filter_sublist
  rw [findAll_eq h hi p hdepth, List.mem_filter, honward.mem_preorder hdepth,
    matchesNode_iff h.parentsFirst]

theorem pairwise_findAll : (p.findAll t text i).Pairwise (· < ·) := by
  rw [findAll_eq h hi p (Nat.le_add_left t.size (i + 1))]
  exact (h.pairwise_preorder (fun _ => List.filter_sublist) _ i).filter _

end Finding

theorem findFirst?_eq (p : Pattern) : p.findFirst? t text i = (p.findAll t text i).head? :=
  (List.head?_filter ..).symm

/-- In a tree that calls have built, a search from a node finds the nodes down from there for which the
pattern holds, in the order of the recursive walk and of the array. -/
theorem search_built (src : Source) (calls : List TreeBuilder.Call) (text : Source) {i : Nat}
    (hi : i < (TreeBuilder.built src calls).size) (p : Pattern) :
    let t := TreeBuilder.built src calls
    (∀ j : Nat, p.matchesNode t text j = true ↔ p.Holds t text j) ∧
      (∀ j : Nat, j ∈ p.findAll t text i ↔ Reached t.namedChildren i j ∧ p.Holds t text j) ∧
      (p.findAll t text i).Pairwise (· < ·) ∧
      (∀ depth : Nat, t.size ≤ depth →
        p.findAll t text i = (preorder t.namedChildren depth i).filter (p.matchesNode t text)) ∧
      p.findFirst? t text i = (p.findAll t text i).head? ∧
      ∀ depth depth' j : Nat, depth ≤ depth' →
        (Pattern.ancestor p depth).matchesNode t text j = true →
        (Pattern.ancestor p depth').matchesNode t text j = true := by
  intro t
  have h : t.InPreorder := TreeBuilder.inPreorder_built src calls
  have hmatches := @matchesNode_iff t text h.parentsFirst
  refine ⟨hmatches p, fun j => mem_findAll h hi p, pairwise_findAll h hi p,
    fun depth hdepth => findAll_eq h hi p (Nat.le_add_left_of_le hdepth), findFirst?_eq p,
    fun depth depth' j hle hj => ?_⟩
  exact (hmatches _ j).2 (((hmatches _ j).1 hj).ancestor_mono hle)

/-- A call with one argument, a string in brackets that have no name. -/
def callCalls : List TreeBuilder.Call :=
  [.openNode "call_expression" true 0, .leaf "member_expression" true 0 8,
    .openNode "arguments" true 8, .leaf "(" false 8 9, .openNode "string" true 9,
    .leaf "string_fragment" true 10 11, .close 12, .leaf ")" false 12 13, .close 13, .close 13]

def callSource : Source := "register('a')".toList

/-- From the arguments down, the string is left out though its fragment is found. -/
theorem search_arguments :
    let t := TreeBuilder.built callSource callCalls
    let p : Pattern :=
      .all [.textContains "a", .not (.kind "string"), .ancestor (.kind "call_expression") 3]
    2 < t.size ∧ p.findAll t callSource 2 = [2, 5] ∧
      ∀ j : Nat, j ∈ [2, 5] ↔ Reached t.namedChildren 2 j ∧ p.Holds t callSource j := by
  intro t p
  have hi : 2 < t.size := by decide
  have hfound : p.findAll t callSource 2 = [2, 5] := by decide
  exact ⟨hi, hfound, hfound ▸ (search_built callSource callCalls callSource hi p).2.1⟩

end Pattern
end ProjectIndex
