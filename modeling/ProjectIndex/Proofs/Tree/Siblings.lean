import Mathlib.Data.List.TakeWhile
import Mathlib.Order.Bounds.Basic
import Mathlib.Order.Nat
import ProjectIndex.Proofs.Tree.Calls

/-!
Named siblings. The search for the next and the previous one looks for the node itself among the named
children of its parent. A named node is found there, and its neighbours in document order are the
answers. An unnamed node is not: nothing is next to it then, and the last of all named children is taken
for the previous one, though it may stand behind.
-/
namespace ProjectIndex

section Lists

variable {xs : List Nat} {j : Nat}

theorem head?_eq_some_iff_isLeast (h : xs.Pairwise (· < ·)) :
    xs.head? = some j ↔ IsLeast {c | c ∈ xs} j := by
  cases xs with
  | nil => exact ⟨nofun, fun hj => absurd hj.1 List.not_mem_nil⟩
  | cons x xs =>
    have hx : IsLeast {c | c ∈ x :: xs} x := by
      refine ⟨List.mem_cons_self .., List.forall_mem_cons.2 ⟨Nat.le_refl x, fun c hc => ?_⟩⟩
      exact Nat.le_of_lt ((List.pairwise_cons.1 h).1 c hc)
    exact ⟨fun heq => Option.some.inj heq ▸ hx, fun hj => congrArg some (hx.unique hj)⟩

theorem getLast?_eq_some_iff_isGreatest (h : xs.Pairwise (· < ·)) :
    xs.getLast? = some j ↔ IsGreatest {c | c ∈ xs} j := by
  rcases List.eq_nil_or_concat xs with rfl | ⟨xs, x, rfl⟩
  · exact ⟨nofun, fun hj => absurd hj.1 List.not_mem_nil⟩
  · rw [List.concat_eq_append] at h ⊢
    have hx : IsGreatest {c | c ∈ xs ++ [x]} x := by
      refine ⟨List.mem_append_right _ (List.mem_singleton_self x), fun c hc => ?_⟩
      rcases List.mem_append.1 hc with hc | hc
      · exact Nat.le_of_lt ((List.pairwise_append.1 h).2.2 c hc x (List.mem_singleton_self x))
      · exact Nat.le_of_eq (List.mem_singleton.1 hc)
    rw [List.getLast?_concat]
    exact ⟨fun heq => Option.some.inj heq ▸ hx, fun hj => congrArg some (hx.unique hj)⟩

end Lists

namespace SyntaxTree

def namedBefore (t : SyntaxTree) (p i : NodeId) : Set NodeId := {c | c ∈ t.namedChildren p ∧ c < i}

def namedBehind (t : SyntaxTree) (p i : NodeId) : Set NodeId := {c | c ∈ t.namedChildren p ∧ i < c}

variable {t : SyntaxTree} {i j p : Nat}

theorem InPreorder.exists_split (h : t.InPreorder) (hp : t.parent? i = some p)
    (hnamed : t.isNamed i = true) :
    ∃ before behind : List NodeId, t.namedChildren p = before ++ i :: behind ∧
      (∀ c ∈ before, (c != i) = true) ∧
      before.Pairwise (· < ·) ∧ t.namedBefore p i = {c | c ∈ before} ∧
      behind.Pairwise (· < ·) ∧ t.namedBehind p i = {c | c ∈ behind} := by
  obtain ⟨before, behind, hsplit⟩ := List.append_of_mem (h.mem_namedChildren.2 ⟨hp, hnamed⟩)
  have hsorted := h.pairwise_namedChildren p
  rw [hsplit, List.pairwise_append, List.pairwise_cons] at hsorted
  obtain ⟨hsortedBefore, ⟨hbehind, hsortedBehind⟩, hbefore⟩ := hsorted
  have hlt : ∀ c ∈ before, c < i := fun c hc => hbefore c hc i (List.mem_cons_self ..)
  refine ⟨before, behind, hsplit, fun c hc => bne_iff_ne.2 (Nat.ne_of_lt (hlt c hc)), hsortedBefore,
    ?_, hsortedBehind, ?_⟩
  · ext c
    rw [namedBefore, hsplit, Set.mem_ofPred_eq, Set.mem_ofPred_eq, List.mem_append, List.mem_cons]
    refine ⟨?_, fun hc => ⟨.inl hc, hlt c hc⟩⟩
    rintro ⟨hc | rfl | hc, hci⟩
    · exact hc
    · exact absurd hci (Nat.lt_irrefl _)
    · exact absurd hci (Nat.not_lt_of_lt (hbehind c hc))
  · ext c
    rw [namedBehind, hsplit, Set.mem_ofPred_eq, Set.mem_ofPred_eq, List.mem_append, List.mem_cons]
    refine ⟨?_, fun hc => ⟨.inr (.inr hc), hbehind c hc⟩⟩
    rintro ⟨hc | rfl | hc, hic⟩
    · exact absurd hic (Nat.not_lt_of_lt (hlt c hc))
    · exact absurd hic (Nat.lt_irrefl _)
    · exact hc

theorem InPreorder.next_of_named (h : t.InPreorder) (hp : t.parent? i = some p)
    (hnamed : t.isNamed i = true) :
    t.nextNamedSibling? i = some j ↔ IsLeast (t.namedBehind p i) j := by
  obtain ⟨before, behind, hsplit, hpass, _, _, hsorted, hbehind⟩ := h.exists_split hp hnamed
  have hnext : t.nextNamedSibling? i = behind.head? := by
    rw [nextNamedSibling?, hp, Option.bind_some, hsplit, List.dropWhile_append_of_pos hpass,
      List.dropWhile_cons_of_neg (by simp), List.getElem?_cons_succ, List.head?_eq_getElem?]
  rw [hnext, hbehind]
  exact head?_eq_some_iff_isLeast hsorted

theorem InPreorder.prev_of_named (h : t.InPreorder) (hp : t.parent? i = some p)
    (hnamed : t.isNamed i = true) :
    t.prevNamedSibling? i = some j ↔ IsGreatest (t.namedBefore p i) j := by
  obtain ⟨before, behind, hsplit, hpass, hsorted, hbefore, _⟩ := h.exists_split hp hnamed
  have hprev : t.prevNamedSibling? i = before.getLast? := by
    rw [prevNamedSibling?, hp, Option.bind_some, hsplit, List.takeWhile_append_of_pos hpass,
      List.takeWhile_cons_of_neg (by simp), List.append_nil]
  rw [hprev, hbefore]
  exact getLast?_eq_some_iff_isGreatest hsorted

theorem InPreorder.siblings_of_unnamed (h : t.InPreorder) (hp : t.parent? i = some p)
    (hnamed : t.isNamed i = false) :
    t.nextNamedSibling? i = none ∧ t.prevNamedSibling? i = (t.namedChildren p).getLast? := by
  have hpass : ∀ c ∈ t.namedChildren p, (c != i) = true := by
    intro c hc
    rw [bne_iff_ne]
    rintro rfl
    exact Bool.false_ne_true (hnamed.symm.trans (h.mem_namedChildren.1 hc).2)
  constructor
  · rw [nextNamedSibling?, hp, Option.bind_some, List.dropWhile_eq_nil_iff.2 hpass]
    rfl
  · rw [prevNamedSibling?, hp, Option.bind_some, List.takeWhile_eq_self_iff.2 hpass]

theorem InPreorder.namedBefore_of_unnamed (h : t.InPreorder) (hnamed : t.isNamed i = false)
    (hbehind : t.namedBehind p i = ∅) : t.namedBefore p i = {c | c ∈ t.namedChildren p} := by
  ext c
  refine ⟨And.left, fun hc => ⟨hc, ?_⟩⟩
  rcases Nat.lt_trichotomy c i with hlt | rfl | hgt
  · exact hlt
  · exact absurd (hnamed.symm.trans (h.mem_namedChildren.1 hc).2) Bool.false_ne_true
  · exact absurd (Set.eq_empty_iff_forall_notMem.1 hbehind c) (not_not_intro ⟨hc, hgt⟩)

end SyntaxTree

namespace TreeBuilder

open SyntaxTree

/-- The next named sibling is the first named child of the parent behind the node, and the previous one
the last before it, exactly if the node is named or no named child stands behind it. For any other
node there is no next one, and the last named child passes for the previous one. -/
theorem named_siblings (src : Source) (calls : List Call) {i p : Nat}
    (hp : (built src calls).parent? i = some p) :
    let t := built src calls
    ((∀ j : Nat, t.nextNamedSibling? i = some j ↔ IsLeast (t.namedBehind p i) j) ↔
        t.isNamed i = true ∨ t.namedBehind p i = ∅) ∧
      ((∀ j : Nat, t.prevNamedSibling? i = some j ↔ IsGreatest (t.namedBefore p i) j) ↔
        t.isNamed i = true ∨ t.namedBehind p i = ∅) ∧
      (t.isNamed i = false →
        t.nextNamedSibling? i = none ∧ t.prevNamedSibling? i = (t.namedChildren p).getLast?) := by
  intro t
  have h : t.InPreorder := inPreorder_built src calls
  have hp : t.parent? i = some p := hp
  cases hnamed : t.isNamed i with
  | true =>
    refine ⟨⟨fun _ => .inl rfl, fun _ j => h.next_of_named hp hnamed⟩,
      ⟨fun _ => .inl rfl, fun _ j => h.prev_of_named hp hnamed⟩, nofun⟩
  | false =>
    -- The search never stops at an unnamed node, so it answers nothing, or the last of all.
    obtain ⟨hnext, hprev⟩ := h.siblings_of_unnamed hp hnamed
    refine ⟨⟨fun hall => .inr ?_, fun hbehind j => ?_⟩, ⟨fun hall => .inr ?_, fun hbehind j => ?_⟩,
      fun _ => ⟨hnext, hprev⟩⟩
    · by_contra hne
      obtain ⟨c, hc⟩ := Set.nonempty_iff_ne_empty.2 hne
      classical
      have hleast := (hall _).2 (Nat.isLeast_find ⟨c, hc⟩)
      rw [hnext] at hleast
      cases hleast
    · rw [hnext, hbehind.resolve_left nofun]
      exact ⟨nofun, fun hj => absurd hj.1 (Set.notMem_empty j)⟩
    · by_contra hne
      obtain ⟨c, hc, hic⟩ := Set.nonempty_iff_ne_empty.2 hne
      obtain ⟨j, hj⟩ := Option.isSome_iff_exists.1 (List.getLast?_isSome.2 (List.ne_nil_of_mem hc))
      have hgreatest := (getLast?_eq_some_iff_isGreatest (h.pairwise_namedChildren p)).1 hj
      have hbefore := ((hall j).1 (hprev.trans hj)).1.2
      have hle : c ≤ i := Nat.le_trans (hgreatest.2 hc) (Nat.le_of_lt hbefore)
      exact Nat.lt_irrefl i (Nat.lt_of_lt_of_le hic hle)
    · rw [hprev, h.namedBefore_of_unnamed hnamed (hbehind.resolve_left nofun)]
      exact getLast?_eq_some_iff_isGreatest (h.pairwise_namedChildren p)

/-- A pair of two strings with a colon between them, which has no name. -/
def pairCalls : List Call :=
  [.openNode "pair" true 0, .leaf "string" true 0 5, .leaf ":" false 5 6, .leaf "string" true 7 14,
    .close 14]

def pairSource : Source := "\"key\": \"value\"".toList

/-- The second string is next to the first, and the colon is skipped. -/
theorem named_siblings_string :
    (built pairSource pairCalls).parent? 1 = some 0 ∧
      (built pairSource pairCalls).nextNamedSibling? 1 = some 3 ∧
      IsLeast ((built pairSource pairCalls).namedBehind 0 1) 3 := by
  have hp : (built pairSource pairCalls).parent? 1 = some 0 := by decide
  have hnext : (built pairSource pairCalls).nextNamedSibling? 1 = some 3 := by decide
  have hnamed : (built pairSource pairCalls).isNamed 1 = true := by decide
  exact ⟨hp, hnext, ((named_siblings pairSource pairCalls hp).1.2 (.inl hnamed) 3).1 hnext⟩

/-- The string behind the colon is not next to it but passes for the one before it. -/
theorem colon_misses_siblings :
    let t := built pairSource pairCalls
    t.parent? 2 = some 0 ∧ IsLeast (t.namedBehind 0 2) 3 ∧ t.nextNamedSibling? 2 ≠ some 3 ∧
      IsGreatest (t.namedBefore 0 2) 1 ∧ t.prevNamedSibling? 2 = some 3 := by
  intro t
  have hchildren : t.namedChildren 0 = [1, 3] := by decide
  have hbehind : IsLeast (t.namedBehind 0 2) 3 := by
    refine ⟨⟨hchildren ▸ by decide, by decide⟩, fun c hc => ?_⟩
    exact hc.2
  have hbefore : IsGreatest (t.namedBefore 0 2) 1 := by
    refine ⟨⟨hchildren ▸ by decide, by decide⟩, fun c hc => ?_⟩
    exact Nat.le_of_lt_succ hc.2
  exact ⟨by decide, hbehind, by decide, hbefore, by decide⟩

end TreeBuilder
end ProjectIndex
