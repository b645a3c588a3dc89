import Mathlib.Data.List.Basic
import ProjectIndex.Proofs.Text.Boundary
import ProjectIndex.Proofs.Tree.Layout
import ProjectIndex.Proofs.Tree.Visit

/-!
What is read off the nodes of a tree that is laid out: the fields of a node are those of its part,
the named descendants are found in document order, and the line of a node is one more than the
number of line feeds in front of it.
-/
namespace ProjectIndex

open ProjectIndex.Text

section Lines

variable {offset row start pos : Nat}

theorem lineStartsFrom_append (u w : List Char) :
    lineStartsFrom pos (u ++ w) = lineStartsFrom pos u ++ lineStartsFrom (pos + byteLength u) w := by
  induction u generalizing pos with
  | nil => rfl
  | cons c u ih =>
    rw [List.cons_append, lineStartsFrom, lineStartsFrom, ih, byteLength_cons, Nat.add_assoc]
    split
    · rfl
    · rfl

theorem length_lineStartsFrom (u : List Char) : (lineStartsFrom pos u).length = u.count '\n' := by
  induction u generalizing pos with
  | nil => rfl
  | cons c u ih =>
    rw [lineStartsFrom]
    by_cases hc : c = '\n'
    · subst hc
      simp [ih]
    · simp [hc, ih]

theorem mem_lineStartsFrom {u : List Char} {n : Nat} (h : n ∈ lineStartsFrom pos u) :
    pos < n ∧ n ≤ pos + byteLength u := by
  induction u generalizing pos with
  | nil => cases h
  | cons c u ih =>
    have hpos := c.utf8Size_pos
    have hrest : n ∈ lineStartsFrom (pos + c.utf8Size) u →
        pos < n ∧ n ≤ pos + byteLength (c :: u) := by
      intro hmem
      have := ih hmem
      rw [byteLength_cons]
      omega
    rw [lineStartsFrom] at h
    split at h
    · rcases List.mem_cons.1 h with rfl | hmem
      · rw [byteLength_cons]
        omega
      · exact hrest hmem
    · exact hrest h

theorem lastStart_append {xs ys : List Nat} (hxs : ∀ x ∈ xs, x ≤ offset)
    (hys : ∀ y ∈ ys, offset < y) :
    lastStart offset row start (xs ++ ys) = (row + xs.length, xs.getLastD start) := by
  induction xs generalizing row start with
  | nil =>
    cases ys with
    | nil => rfl
    | cons y ys =>
      rw [List.nil_append, lastStart, if_neg (Nat.not_le.2 (hys y (List.mem_cons_self ..)))]
      rfl
  | cons x xs ih =>
    obtain ⟨hx, hrest⟩ := List.forall_mem_cons.1 hxs
    rw [List.cons_append, lastStart, if_pos hx, ih hrest, List.length_cons, List.getLastD_cons,
      Nat.add_right_comm, Nat.add_assoc]

theorem line_pointOf (u w : List Char) :
    (pointOf (u ++ w) (byteLength u)).line = u.count '\n' + 1 := by
  have hmin : min (byteLength u) (byteLength (u ++ w)) = byteLength u := by
    rw [byteLength_append]
    omega
  have hrow : (pointOf (u ++ w) (byteLength u)).row =
      (lastStart (byteLength u) 0 0 (lineStartsFrom 0 (u ++ w))).1 := by
    change (lastStart (min (byteLength u) (byteLength (u ++ w))) 0 0 _).1 = _
    rw [hmin]
    rfl
  rw [Point.line, hrow, lineStartsFrom_append, lastStart_append, length_lineStartsFrom,
    Nat.zero_add]
  · intro x hx
    have := mem_lineStartsFrom hx
    omega
  · intro y hy
    have := mem_lineStartsFrom hy
    omega

end Lines

namespace Shape

section Fields

variable {t : SyntaxTree} {src : Source} {parent : Option NodeId} {k : Nat} {s : Shape}
  {xs ys : List Shape}

theorem Laid.kind_eq (h : Laid src t.node parent k s) : t.kind k = s.kind := by
  rw [SyntaxTree.kind, (laid_iff.1 h).1]
  rfl

theorem Laid.isNamed_eq (h : Laid src t.node parent k s) : t.isNamed k = s.isNamed := by
  rw [SyntaxTree.isNamed, (laid_iff.1 h).1]
  rfl

theorem Laid.parent?_eq (h : Laid src t.node parent k s) : t.parent? k = parent := by
  rw [SyntaxTree.parent?, (laid_iff.1 h).1]
  rfl

theorem Laid.children_eq (h : Laid src t.node parent k s) :
    t.children k = ids (k + 1) s.children := by
  rw [SyntaxTree.children, (laid_iff.1 h).1]
  rfl

theorem Laid.text_eq (h : Laid src t.node parent k s) :
    t.text src k = slice src s.start s.stop := by
  rw [SyntaxTree.text, (laid_iff.1 h).1]
  rfl

theorem Laid.line_eq (h : Laid src t.node parent k s) : t.line k = (pointOf src s.start).line := by
  rw [SyntaxTree.line, (laid_iff.1 h).1]
  rfl

theorem Laid.below (h : Laid src t.node parent k s) : LaidAll src t.node k (k + 1) s.children :=
  (laid_iff.1 h).2

def namedIds (k : Nat) : List Shape → List NodeId
  | [] => []
  | s :: rest => if s.isNamed then k :: namedIds (k + s.size) rest else namedIds (k + s.size) rest

theorem LaidAll.filter_ids {p : Nat} (h : LaidAll src t.node p k xs) :
    (ids k xs).filter t.isNamed = namedIds k xs := by
  induction xs generalizing k with
  | nil => rfl
  | cons s xs ih =>
    obtain ⟨hs, hrest⟩ := h
    rw [ids, List.filter_cons, hs.isNamed_eq, namedIds, ih hrest]

theorem Laid.namedChildren_eq (h : Laid src t.node parent k s) :
    t.namedChildren k = namedIds (k + 1) s.children := by
  rw [SyntaxTree.namedChildren, h.children_eq, h.below.filter_ids]

mutual

/-- The ids of a part and its named descendants, in document order. -/
def reached (k : Nat) : Shape → List NodeId
  | .leaf .. => [k]
  | .node _ _ _ _ _ children => k :: reachedAll (k + 1) children

def reachedAll (k : Nat) : List Shape → List NodeId
  | [] => []
  | s :: rest =>
    if s.isNamed then s.reached k ++ reachedAll (k + s.size) rest else reachedAll (k + s.size) rest

end

mutual

theorem length_reached_le : ∀ (s : Shape) (k : Nat), (s.reached k).length ≤ s.size
  | .leaf .., _ => Nat.le_refl 1
  | .node _ _ _ _ _ children, k => Nat.succ_le_succ (length_reachedAll_le children (k + 1))

theorem length_reachedAll_le : ∀ (xs : List Shape) (k : Nat), (reachedAll k xs).length ≤ sizeAll xs
  | [], _ => Nat.le_refl 0
  | s :: rest, k => by
    have hs := length_reached_le s k
    have hrest := length_reachedAll_le rest (k + s.size)
    rw [reachedAll, sizeAll]
    split
    · rw [List.length_append]
      omega
    · omega

end

mutual

/-- The walk comes by all that is reached in a part before it takes up the rest of the stack. -/
theorem Laid.visit_eq : ∀ {s : Shape} {parent : Option NodeId} {k : Nat},
    Laid src t.node parent k s → ∀ (steps : Nat) (stack : List NodeId),
      t.visit ((s.reached k).length + steps) (k :: stack) = s.reached k ++ t.visit steps stack
  | .leaf kind named error start stop, parent, k, h, steps, stack => by
    have hsteps : ([k] : List NodeId).length + steps = steps + 1 := Nat.add_comm 1 steps
    rw [reached, hsteps, t.visit_cons, h.namedChildren_eq]
    rfl
  | .node kind named error start stop children, parent, k, h, steps, stack => by
    have hsteps : (k :: reachedAll (k + 1) children).length + steps =
        (reachedAll (k + 1) children).length + steps + 1 := Nat.add_right_comm _ 1 steps
    rw [reached, hsteps, t.visit_cons, h.namedChildren_eq]
    exact congrArg (k :: ·) (LaidAll.visit_eq h.below steps stack)

theorem LaidAll.visit_eq : ∀ {xs : List Shape} {p k : Nat},
    LaidAll src t.node p k xs → ∀ (steps : Nat) (stack : List NodeId),
      t.visit ((reachedAll k xs).length + steps) (namedIds k xs ++ stack) =
        reachedAll k xs ++ t.visit steps stack
  | [], _, _, _, steps, stack => by
    rw [reachedAll, namedIds, List.length_nil, Nat.zero_add]
    rfl
  | s :: rest, p, k, h, steps, stack => by
    obtain ⟨hs, hrest⟩ := h
    rw [namedIds, reachedAll]
    split
    · rw [List.length_append, Nat.add_assoc, List.cons_append, Laid.visit_eq hs,
        LaidAll.visit_eq hrest, List.append_assoc]
    · exact LaidAll.visit_eq hrest steps stack

end

theorem reached_eq (k : Nat) (s : Shape) : s.reached k = k :: reachedAll (k + 1) s.children := by
  cases s with
  | leaf => rw [reached]; rfl
  | node => rw [reached]; rfl

theorem reachedAll_cons_of_named (h : s.isNamed = true) :
    reachedAll k (s :: xs) = s.reached k ++ reachedAll (k + s.size) xs := by
  rw [reachedAll, if_pos h]

theorem reachedAll_singleton (k : Nat) (h : s.isNamed = true) : reachedAll k [s] = s.reached k := by
  rw [reachedAll_cons_of_named h, reachedAll, List.append_nil]

theorem namedIds_append : namedIds k (xs ++ ys) = namedIds k xs ++ namedIds (k + sizeAll xs) ys := by
  induction xs generalizing k with
  | nil => rfl
  | cons s xs ih =>
    rw [List.cons_append, namedIds, namedIds, ih, sizeAll, Nat.add_assoc]
    split
    · rfl
    · rfl

theorem reachedAll_append :
    reachedAll k (xs ++ ys) = reachedAll k xs ++ reachedAll (k + sizeAll xs) ys := by
  induction xs generalizing k with
  | nil => rfl
  | cons s xs ih =>
    rw [List.cons_append, reachedAll, reachedAll, ih, sizeAll, Nat.add_assoc]
    split
    · rw [List.append_assoc]
    · rfl

theorem namedIds_cons_of_named (h : s.isNamed = true) :
    namedIds k (s :: xs) = k :: namedIds (k + s.size) xs := by
  rw [namedIds, if_pos h]

theorem namedIds_cons_of_unnamed (h : s.isNamed = false) :
    namedIds k (s :: xs) = namedIds (k + s.size) xs := by
  rw [namedIds, h, if_neg Bool.false_ne_true]

theorem namedIds_eq_ids (h : ∀ s ∈ xs, s.isNamed = true) : namedIds k xs = ids k xs := by
  induction xs generalizing k with
  | nil => rfl
  | cons s xs ih =>
    obtain ⟨hs, hrest⟩ := List.forall_mem_cons.1 h
    rw [namedIds_cons_of_named hs, ih hrest, ids]

theorem exists_of_mem_namedIds {i : Nat} (h : i ∈ namedIds k xs) :
    ∃ before c after, xs = before ++ c :: after ∧ c.isNamed = true ∧ i = k + sizeAll before := by
  induction xs generalizing k with
  | nil => cases h
  | cons s xs ih =>
    have hrest : i ∈ namedIds (k + s.size) xs → ∃ before c after,
        s :: xs = before ++ c :: after ∧ c.isNamed = true ∧ i = k + sizeAll before := by
      intro hmem
      obtain ⟨before, c, after, rfl, hc, rfl⟩ := ih hmem
      exact ⟨s :: before, c, after, rfl, hc, by rw [sizeAll, Nat.add_assoc]⟩
    rw [namedIds] at h
    split at h
    · rcases List.mem_cons.1 h with rfl | hmem
      · exact ⟨[], s, xs, rfl, ‹_›, by rw [sizeAll, Nat.add_zero]⟩
      · exact hrest hmem
    · exact hrest h

theorem lt_of_mem_namedIds {i : Nat} (h : i ∈ namedIds k xs) : i < k + sizeAll xs := by
  obtain ⟨before, c, after, rfl, _, rfl⟩ := exists_of_mem_namedIds h
  have hpos := size_eq c
  rw [sizeAll_append, sizeAll]
  omega

mutual

theorem range_of_mem_reached : ∀ {s : Shape} {k i : Nat}, i ∈ s.reached k → k ≤ i ∧ i < k + s.size
  | .leaf .., k, i, h => by
    rw [reached, List.mem_singleton] at h
    rw [size]
    omega
  | .node kind named error start stop children, k, i, h => by
    rw [reached, List.mem_cons] at h
    rw [size]
    rcases h with rfl | hmem
    · omega
    · have := range_of_mem_reachedAll hmem
      omega

theorem range_of_mem_reachedAll : ∀ {xs : List Shape} {k i : Nat}, i ∈ reachedAll k xs →
    k ≤ i ∧ i < k + sizeAll xs
  | [], _, _, h => by cases h
  | s :: rest, k, i, h => by
    have hrest : i ∈ reachedAll (k + s.size) rest → k ≤ i ∧ i < k + sizeAll (s :: rest) := by
      intro hmem
      have := range_of_mem_reachedAll hmem
      rw [sizeAll]
      omega
    rw [reachedAll] at h
    split at h
    · rcases List.mem_append.1 h with hmem | hmem
      · have := range_of_mem_reached hmem
        rw [sizeAll]
        omega
      · exact hrest hmem
    · exact hrest h

end

theorem LaidAll.part {P : Shape → Prop} (hP : Hereditary P) {p i : Nat}
    (h : LaidAll src t.node p k xs) (hxs : ∀ s ∈ xs, P s) (hi : i ∈ reachedAll k xs) :
    ∃ parent s, P s ∧ Laid src t.node parent i s := by
  obtain ⟨hle, hlt⟩ := range_of_mem_reachedAll hi
  rcases h.childAt hP hxs hle hlt with hmem | ⟨q, _, s, hs, _, _, hlaid, hmem⟩
  · obtain ⟨c, hc, hchild, _⟩ := h.of_mem_ids hmem
    exact ⟨_, c, hxs c hc, hchild⟩
  · obtain ⟨c, hc, hchild, _⟩ := hlaid.below.of_mem_ids hmem
    exact ⟨_, c, hP s hs c hc, hchild⟩

theorem Laid.prevNamedSibling?_eq {x : Shape} (h : Laid src t.node parent k s)
    (hchildren : s.children = xs ++ x :: ys) (hx : x.isNamed = true) :
    t.prevNamedSibling? (k + 1 + sizeAll xs) = (namedIds (k + 1) xs).getLast? := by
  have hlaid := h.below
  rw [hchildren, laidAll_append] at hlaid
  have hparent := hlaid.2.1.parent?_eq
  have hbefore : ∀ i ∈ namedIds (k + 1) xs, (i != k + 1 + sizeAll xs) = true := by
    intro i hi
    exact bne_iff_ne.2 (Nat.ne_of_lt (lt_of_mem_namedIds hi))
  -- ids grow with the siblings, so the search stops at the child itself
  have hhere : namedIds (k + 1 + sizeAll xs) (x :: ys) =
      (k + 1 + sizeAll xs) :: namedIds (k + 1 + sizeAll xs + x.size) ys := by
    rw [namedIds, if_pos hx]
  rw [SyntaxTree.prevNamedSibling?, hparent, Option.bind_some, h.namedChildren_eq, hchildren,
    namedIds_append, hhere, List.takeWhile_append_of_pos hbefore,
    List.takeWhile_cons_of_neg (by simp), List.append_nil]

/-- Each node reached takes one step, so the walk is not cut short. -/
theorem Laid.descendants_of_le (hsize : s.size ≤ t.size) (h : Laid src t.node parent k s) :
    t.descendants k = s.reached k := by
  obtain ⟨steps, hsteps⟩ := Nat.exists_eq_add_of_le (Nat.le_trans (length_reached_le s k) hsize)
  rw [SyntaxTree.descendants, hsteps, h.visit_eq, SyntaxTree.visit_nil, List.append_nil]

theorem Laid.descendants_eq (hsize : t.size = s.size) (h : Laid src t.node none 0 s) :
    t.descendants 0 = s.reached 0 := h.descendants_of_le (Nat.le_of_eq hsize.symm)

end Fields

end Shape
end ProjectIndex
