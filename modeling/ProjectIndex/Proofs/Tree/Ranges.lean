import Mathlib.Data.List.Basic
import ProjectIndex.Proofs.Text.Boundary
import ProjectIndex.Proofs.Tree.Layout

/-!
Ranges in a nested tree: each part covers its children, which follow one another without overlap.
Laid out as nodes, such a tree keeps every node inside its parent and behind its earlier siblings.
-/
namespace ProjectIndex

namespace Shape

mutual

def Fits (admitted : Shape → Prop) : Shape → Prop
  | .leaf kind named error start stop =>
    admitted (.leaf kind named error start stop) ∧ start ≤ stop
  | .node kind named error start stop children =>
    admitted (.node kind named error start stop children) ∧ FitAll admitted start stop children

def FitAll (admitted : Shape → Prop) (lo hi : Nat) : List Shape → Prop
  | [] => lo ≤ hi
  | s :: rest => lo ≤ s.start ∧ s.Fits admitted ∧ FitAll admitted s.stop hi rest

end

variable {admitted : Shape → Prop} {s c : Shape} {xs ys : List Shape} {lo mid hi hi' : Nat}

theorem fits_iff :
    s.Fits admitted ↔ admitted s ∧ FitAll admitted s.start s.stop s.children := by
  cases s with
  | leaf => rw [Fits]; rfl
  | node => rw [Fits]; rfl

mutual

theorem Fits.le : ∀ {s : Shape}, s.Fits admitted → s.start ≤ s.stop
  | .leaf .., h => h.2
  | .node .., h => FitAll.le h.2

theorem FitAll.le : ∀ {xs : List Shape} {lo hi : Nat}, FitAll admitted lo hi xs → lo ≤ hi
  | [], _, _, h => h
  | _ :: _, _, _, h => Nat.le_trans h.1 (Nat.le_trans (Fits.le h.2.1) (FitAll.le h.2.2))

end

theorem FitAll.mono (h : FitAll admitted lo hi xs) (hle : hi ≤ hi') :
    FitAll admitted lo hi' xs := by
  induction xs generalizing lo with
  | nil => exact Nat.le_trans h hle
  | cons s xs ih => exact ⟨h.1, h.2.1, ih h.2.2⟩

theorem FitAll.append (hx : FitAll admitted lo mid xs) (hy : FitAll admitted mid hi ys) :
    FitAll admitted lo hi (xs ++ ys) := by
  induction xs generalizing lo with
  | nil =>
    cases ys with
    | nil => exact Nat.le_trans hx hy
    | cons s ys => exact ⟨Nat.le_trans hx hy.1, hy.2⟩
  | cons s xs ih => exact ⟨hx.1, hx.2.1, ih hx.2.2⟩

theorem FitAll.of_mem (h : FitAll admitted lo hi xs) (hc : c ∈ xs) :
    lo ≤ c.start ∧ c.stop ≤ hi ∧ c.Fits admitted := by
  induction xs generalizing lo with
  | nil => cases hc
  | cons s xs ih =>
    obtain ⟨hlo, hs, hrest⟩ := h
    rcases List.mem_cons.1 hc with rfl | hmem
    · exact ⟨hlo, hrest.le, hs⟩
    · obtain ⟨hstart, hstop, hfits⟩ := ih hrest hmem
      exact ⟨Nat.le_trans hlo (Nat.le_trans hs.le hstart), hstop, hfits⟩

theorem hereditary_fits : Hereditary (Fits admitted) := fun _ hs _ hc =>
  ((fits_iff.1 hs).2.of_mem hc).2.2

theorem FitAll.pairwise {src : Source} {node : NodeId → Node} {p k : Nat}
    (h : FitAll admitted lo hi xs) (hlaid : LaidAll src node p k xs) :
    (ids k xs).Pairwise fun i j => (node i).endByte ≤ (node j).startByte := by
  induction xs generalizing lo k with
  | nil => exact .nil
  | cons s xs ih =>
    obtain ⟨_, _, hrest⟩ := h
    obtain ⟨hs, hlaidRest⟩ := hlaid
    refine .cons (fun j hj => ?_) (ih hrest hlaidRest)
    obtain ⟨c, hc, hlaidC, _⟩ := hlaidRest.of_mem_ids hj
    rw [(laid_iff.1 hs).1, (laid_iff.1 hlaidC).1]
    exact (hrest.of_mem hc).1

end Shape

namespace SyntaxTree

/-- A tree over a source: parents come before their children and cover them, siblings follow one
another, and every node covers a stretch of whole characters. -/
structure Covers (t : SyntaxTree) (src : Source) : Prop where
  parent : ∀ i : Nat, 0 < i → i < t.size →
    ∃ p : Nat, p < i ∧ t.parent? i = some p ∧ i ∈ t.children p
  child : ∀ p i : Nat, p < t.size → i ∈ t.children p → p < i ∧ i < t.size ∧ t.parent? i = some p
  ordered : ∀ i : Nat, i < t.size →
    (t.node i).startByte ≤ (t.node i).endByte ∧ (t.node i).endByte ≤ Text.byteLength src
  whole : ∀ i : Nat, i < t.size → ∃ before after, src = before ++ t.text src i ++ after ∧
    Text.byteLength before = (t.node i).startByte ∧
    Text.byteLength (before ++ t.text src i) = (t.node i).endByte
  inside : ∀ p i : Nat, p < t.size → i ∈ t.children p →
    (t.node p).startByte ≤ (t.node i).startByte ∧ (t.node i).endByte ≤ (t.node p).endByte
  apart : ∀ p : Nat, p < t.size →
    (t.children p).Pairwise fun i j => (t.node i).endByte ≤ (t.node j).startByte

def Cuttable (src : Source) (s : Shape) : Prop :=
  Text.Boundary src s.start ∧ Text.Boundary src s.stop

section Laid

open Shape

variable {t : SyntaxTree} {src : Source} {s : Shape} {admitted : Shape → Prop}

/-- Each node of a tree that is laid out is the topmost one of a part that fits. -/
theorem part_of_laid (hsize : t.size = s.size) (hlaid : Laid src t.node none 0 s)
    (hfits : s.Fits admitted) {i : Nat} (hi : i < t.size) :
    ∃ c : Shape, c.Fits admitted ∧ i + c.size ≤ t.size ∧ (t.node i).startByte = c.start ∧
      (t.node i).endByte = c.stop ∧ t.children i = ids (i + 1) c.children ∧
      LaidAll src t.node i (i + 1) c.children := by
  obtain ⟨parent, c, hc, htop, hlaidC⟩ :=
    hlaid.part hereditary_fits hfits (Nat.zero_le i) (by omega)
  obtain ⟨hnode, hbelow⟩ := laid_iff.1 hlaidC
  refine ⟨c, hc, by omega, ?_, ?_, ?_, hbelow⟩
  · rw [hnode]
    rfl
  · rw [hnode]
    rfl
  · rw [children, hnode]
    rfl

theorem parent?_of_laid {parent : Option NodeId} {i : Nat} (h : Laid src t.node parent i s) :
    t.parent? i = parent := by
  rw [parent?, (laid_iff.1 h).1]
  rfl

theorem covers_of_laid (hsize : t.size = s.size) (hlaid : Laid src t.node none 0 s)
    (hfits : s.Fits admitted) (hcut : ∀ c, admitted c → Cuttable src c) : t.Covers src := by
  have hbetween : ∀ i : Nat, i < t.size → Text.Boundary src (t.node i).startByte ∧
      Text.Boundary src (t.node i).endByte ∧ (t.node i).startByte ≤ (t.node i).endByte := by
    intro i hi
    obtain ⟨c, hc, _, hstart, hstop, _⟩ := part_of_laid hsize hlaid hfits hi
    obtain ⟨hcutStart, hcutStop⟩ := hcut c (fits_iff.1 hc).1
    rw [hstart, hstop]
    exact ⟨hcutStart, hcutStop, hc.le⟩
  refine ⟨fun i hpos hi => ?_, fun p i hp hi => ?_, fun i hi => ?_, fun i hi => ?_,
    fun p i hp hi => ?_, fun p hp => ?_⟩
  · obtain ⟨p, _, c, hc, hlt, _, hlaidC, hmem⟩ :=
      hlaid.childAt hereditary_fits hfits hpos (by omega)
    obtain ⟨hnode, hbelow⟩ := laid_iff.1 hlaidC
    obtain ⟨d, _, hlaidD, _⟩ := hbelow.of_mem_ids hmem
    refine ⟨p, hlt, parent?_of_laid hlaidD, ?_⟩
    rw [children, hnode]
    exact hmem
  · obtain ⟨c, _, htop, _, _, heq, hbelow⟩ := part_of_laid hsize hlaid hfits hp
    rw [heq] at hi
    obtain ⟨d, _, hlaidD, hle, hend⟩ := hbelow.of_mem_ids hi
    have hpos : 0 < d.size := by
      rw [size_eq]
      omega
    rw [size_eq] at htop
    exact ⟨by omega, by omega, parent?_of_laid hlaidD⟩
  · obtain ⟨_, hstop, hle⟩ := hbetween i hi
    exact ⟨hle, hstop.le⟩
  · obtain ⟨hstart, hstop, hle⟩ := hbetween i hi
    obtain ⟨before, after, hsplit, hbefore, hend⟩ := Text.slice_of_boundary hstart hstop hle
    exact ⟨before, after, hsplit, hbefore, by rw [Text.byteLength_append]; exact hend⟩
  · obtain ⟨c, hc, _, hstart, hstop, heq, hbelow⟩ := part_of_laid hsize hlaid hfits hp
    rw [heq] at hi
    obtain ⟨d, hd, hlaidD, _⟩ := hbelow.of_mem_ids hi
    obtain ⟨hlo, hhi, _⟩ := (fits_iff.1 hc).2.of_mem hd
    rw [hstart, hstop, (laid_iff.1 hlaidD).1]
    exact ⟨hlo, hhi⟩
  · obtain ⟨c, hc, _, _, _, heq, hbelow⟩ := part_of_laid hsize hlaid hfits hp
    rw [heq]
    exact (fits_iff.1 hc).2.pairwise hbelow

end Laid

end SyntaxTree
end ProjectIndex
