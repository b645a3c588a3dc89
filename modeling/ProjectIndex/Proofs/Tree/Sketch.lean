import Mathlib.Data.List.Basic
import ProjectIndex.Proofs.Tree.Layout

/-!
What a tree shows of a source, apart from where its nodes stand in the array: kinds, texts and
nesting. A nested tree shows the same before and after it is laid out as nodes.
-/
namespace ProjectIndex

inductive Sketch where
  | mk (kind : String) (named : Bool) (text : List Char) (children : List Sketch)
deriving Inhabited, Repr

mutual

def Sketch.size : Sketch → Nat
  | .mk _ _ _ children => sizeAll children + 1

def Sketch.sizeAll : List Sketch → Nat
  | [] => 0
  | s :: rest => s.size + sizeAll rest

end

namespace SyntaxTree

/-- The part of a tree below a node, down to a depth. -/
def sketchFrom (t : SyntaxTree) (src : Source) : Nat → NodeId → Sketch
  | 0, i => .mk (t.kind i) (t.isNamed i) (t.text src i) []
  | depth + 1, i =>
    .mk (t.kind i) (t.isNamed i) (t.text src i) ((t.children i).map (sketchFrom t src depth))

def sketch (t : SyntaxTree) (src : Source) : Sketch := t.sketchFrom src t.size t.root

end SyntaxTree

namespace Shape

mutual

def sketch (src : Source) : Shape → Sketch
  | .leaf kind named _ start stop => .mk kind named (Text.slice src start stop) []
  | .node kind named _ start stop children =>
    .mk kind named (Text.slice src start stop) (sketchAll src children)

def sketchAll (src : Source) : List Shape → List Sketch
  | [] => []
  | s :: rest => s.sketch src :: sketchAll src rest

end

mutual

def Sound : Shape → Prop
  | .leaf _ _ error _ _ => error = false
  | .node _ _ error _ _ children => error = false ∧ SoundAll children

def SoundAll : List Shape → Prop
  | [] => True
  | s :: rest => s.Sound ∧ SoundAll rest

end

variable {t : SyntaxTree} {src : Source} {s : Shape} {xs ys : List Shape}

theorem sketch_eq (src : Source) (s : Shape) :
    s.sketch src =
      .mk s.kind s.isNamed (Text.slice src s.start s.stop) (sketchAll src s.children) := by
  cases s with
  | leaf => rw [sketch]; rfl
  | node => rw [sketch]; rfl

theorem sketchAll_append : sketchAll src (xs ++ ys) = sketchAll src xs ++ sketchAll src ys := by
  induction xs with
  | nil => rfl
  | cons s xs ih => simp [sketchAll, ih]

theorem soundAll_append : SoundAll (xs ++ ys) ↔ SoundAll xs ∧ SoundAll ys := by
  induction xs with
  | nil => simp [SoundAll]
  | cons s xs ih => simp [SoundAll, ih, and_assoc]

theorem Sound.isError (h : s.Sound) : s.isError = false := by
  cases s with
  | leaf => exact h
  | node => exact h.1

theorem SoundAll.of_mem {c : Shape} (h : SoundAll xs) (hc : c ∈ xs) : c.Sound := by
  induction xs with
  | nil => cases hc
  | cons s xs ih =>
    rcases List.mem_cons.1 hc with rfl | hmem
    · exact h.1
    · exact ih h.2 hmem

theorem hereditary_sound : Hereditary Sound := by
  intro s hs c hc
  cases s with
  | leaf => cases hc
  | node => exact SoundAll.of_mem hs.2 hc

mutual

theorem size_sketch : ∀ s : Shape, (s.sketch src).size = s.size
  | .leaf .. => by rw [sketch, Sketch.size, Sketch.sizeAll, size]
  | .node _ _ _ _ _ children => by rw [sketch, Sketch.size, size, size_sketchAll children]

theorem size_sketchAll : ∀ xs : List Shape, Sketch.sizeAll (sketchAll src xs) = sizeAll xs
  | [] => by rw [sketchAll, Sketch.sizeAll, sizeAll]
  | s :: rest => by rw [sketchAll, Sketch.sizeAll, sizeAll, size_sketch s, size_sketchAll rest]

end

mutual

theorem Laid.sketchFrom_eq : ∀ {s : Shape} {parent : Option NodeId} {k depth : Nat},
    Laid src t.node parent k s → s.size ≤ depth → t.sketchFrom src depth k = s.sketch src
  | .leaf kind named error start stop, parent, k, depth, h, hdepth => by
    have hnode : t.node k = toNode src parent k (.leaf kind named error start stop) := h
    have hchildren : t.children k = [] := by rw [SyntaxTree.children, hnode]; rfl
    cases depth with
    | zero => exact absurd hdepth (Nat.not_succ_le_zero 0)
    | succ depth =>
      rw [SyntaxTree.sketchFrom, hchildren, SyntaxTree.kind, SyntaxTree.isNamed, SyntaxTree.text,
        hnode]
      rfl
  | .node kind named error start stop children, parent, k, depth, h, hdepth => by
    obtain ⟨hnode, hbelow⟩ := h
    have hchildren : t.children k = ids (k + 1) children := by
      rw [SyntaxTree.children, hnode]
      rfl
    rw [size] at hdepth
    cases depth with
    | zero => exact absurd hdepth (Nat.not_succ_le_zero _)
    | succ depth =>
      rw [SyntaxTree.sketchFrom, hchildren,
        LaidAll.map_sketchFrom hbelow (Nat.le_of_succ_le_succ hdepth), SyntaxTree.kind,
        SyntaxTree.isNamed, SyntaxTree.text, hnode]
      rfl

theorem LaidAll.map_sketchFrom : ∀ {xs : List Shape} {p k depth : Nat},
    LaidAll src t.node p k xs → sizeAll xs ≤ depth →
      (ids k xs).map (t.sketchFrom src depth) = sketchAll src xs
  | [], _, _, _, _, _ => rfl
  | s :: rest, p, k, depth, h, hdepth => by
    obtain ⟨hs, hrest⟩ := h
    rw [sizeAll] at hdepth
    rw [ids, List.map_cons, sketchAll, Laid.sketchFrom_eq hs (by omega),
      LaidAll.map_sketchFrom hrest (by omega)]

end

theorem Laid.sketch_eq (hroot : t.root = 0) (hsize : t.size = s.size)
    (h : Laid src t.node none 0 s) : t.sketch src = s.sketch src := by
  rw [SyntaxTree.sketch, hroot]
  exact Laid.sketchFrom_eq h (Nat.le_of_eq hsize.symm)

theorem Laid.hasError_eq (hsize : t.size = s.size) (h : Laid src t.node none 0 s)
    (hsound : s.Sound) : t.hasError = false := by
  rw [SyntaxTree.hasError, Array.any_eq_false]
  intro i hi
  obtain ⟨parent, c, hc, _, hlaid⟩ := h.part hereditary_sound hsound (Nat.zero_le i) (by
    rw [Nat.zero_add, ← hsize]
    exact hi)
  have hnode : t.nodes[i] = c.toNode src parent i := by
    rw [← (laid_iff.1 hlaid).1, SyntaxTree.node, Array.getD_eq_getD_getElem?,
      Array.getElem?_eq_getElem hi]
    rfl
  rw [hnode, toNode, hc.isError]
  exact Bool.false_ne_true

end Shape
end ProjectIndex
