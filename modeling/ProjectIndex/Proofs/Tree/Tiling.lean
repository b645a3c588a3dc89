import Mathlib.Data.List.Basic
import ProjectIndex.Proofs.Text.Boundary
import ProjectIndex.Proofs.Tree.Reading
import ProjectIndex.Text.Blank

/-!
Ranges that tile a stretch of a text but for blanks. They come one behind the other, and what stands
before, between and behind them is blank.
-/
namespace ProjectIndex

namespace Text

variable {src : List Char} {a b c lo mid hi : Nat} {rs : List (Nat × Nat)}

/-- Whether two offsets fall between characters and there are only blanks from one to the other. -/
def BlankBetween (src : List Char) (a b : Nat) : Prop :=
  ∃ gap, OccursAt src a gap ∧ a + byteLength gap = b ∧ ∀ c ∈ gap, isBlank c = true

/-- Whether ranges lie one behind the other between two offsets, with nothing but blanks around
them. -/
def Tiles (src : List Char) : Nat → Nat → List (Nat × Nat) → Prop
  | lo, hi, [] => BlankBetween src lo hi
  | lo, hi, r :: rest => BlankBetween src lo r.1 ∧ r.1 ≤ r.2 ∧ Tiles src r.2 hi rest

theorem BlankBetween.refl (h : Boundary src a) : BlankBetween src a a := by
  obtain ⟨u, v, hsplit, hlength⟩ := h
  exact ⟨[], ⟨u, v, by rw [List.append_nil, hsplit], hlength⟩, rfl, nofun⟩

theorem BlankBetween.le (h : BlankBetween src a b) : a ≤ b := by
  obtain ⟨gap, -, rfl, -⟩ := h
  exact Nat.le_add_right ..

theorem append_inj_of_byteLength {u v u' v' : List Char} (h : u ++ v = u' ++ v')
    (hlength : byteLength u = byteLength u') : u = u' ∧ v = v' := by
  have hu : some u = some u' := by
    rw [← takeBytes?_append u v, h, hlength, takeBytes?_append]
  obtain rfl := Option.some.inj hu
  exact ⟨rfl, List.append_cancel_left h⟩

theorem OccursAt.append {x y : List Char} (hx : OccursAt src a x)
    (hy : OccursAt src (a + byteLength x) y) : OccursAt src a (x ++ y) := by
  obtain ⟨u, w, hsplit, rfl⟩ := hx
  obtain ⟨u', w', hsplit', hlength⟩ := hy
  have hsame : (u ++ x) ++ w = u' ++ (y ++ w') := by
    rw [← hsplit, hsplit', List.append_assoc]
  obtain ⟨-, hrest⟩ := append_inj_of_byteLength hsame (by rw [byteLength_append, hlength])
  exact ⟨u, w', by rw [hsplit, hrest]; simp, rfl⟩

theorem BlankBetween.trans (h : BlankBetween src a b) (k : BlankBetween src b c) :
    BlankBetween src a c := by
  obtain ⟨gap, hgap, rfl, hblank⟩ := h
  obtain ⟨gap', hgap', rfl, hblank'⟩ := k
  refine ⟨gap ++ gap', hgap.append hgap', by rw [byteLength_append, Nat.add_assoc], ?_⟩
  intro c hc
  exact (List.mem_append.1 hc).elim (hblank c) (hblank' c)

theorem Tiles.blank (h : Tiles src lo mid rs) (hblank : BlankBetween src mid hi) :
    Tiles src lo hi rs := by
  induction rs generalizing lo with
  | nil => exact h.trans hblank
  | cons r rs ih => exact ⟨h.1, h.2.1, ih h.2.2⟩

theorem Tiles.add (h : Tiles src lo mid rs) (hle : mid ≤ hi) (hbound : Boundary src hi) :
    Tiles src lo hi (rs ++ [(mid, hi)]) := by
  induction rs generalizing lo with
  | nil => exact ⟨h, hle, .refl hbound⟩
  | cons r rs ih => exact ⟨h.1, h.2.1, ih h.2.2⟩

theorem Tiles.le (h : Tiles src lo hi rs) : lo ≤ hi := by
  induction rs generalizing lo with
  | nil => exact BlankBetween.le h
  | cons r rs ih => exact Nat.le_trans h.1.le (Nat.le_trans h.2.1 (ih h.2.2))

theorem Tiles.le_of_mem {r : Nat × Nat} (h : Tiles src lo hi rs) (hr : r ∈ rs) : lo ≤ r.1 := by
  induction rs generalizing lo with
  | nil => cases hr
  | cons q rs ih =>
    obtain ⟨hblank, hle, hrest⟩ := h
    rcases List.mem_cons.1 hr with rfl | hr
    · exact hblank.le
    · exact Nat.le_trans hblank.le (Nat.le_trans hle (ih hrest hr))

theorem Tiles.filter_append {qs : List (Nat × Nat)} (h : Tiles src lo hi rs)
    (hqs : ∀ q ∈ qs, q.1 < lo) : (qs ++ rs).filter (fun r => lo ≤ r.1) = rs := by
  have hnone : qs.filter (fun r => lo ≤ r.1) = [] := by
    rw [List.filter_eq_nil_iff]
    intro q hq
    simpa using hqs q hq
  have hall : rs.filter (fun r => lo ≤ r.1) = rs := by
    rw [List.filter_eq_self]
    intro r hr
    simpa using h.le_of_mem hr
  rw [List.filter_append, hnone, hall, List.nil_append]

end Text

def SyntaxTree.range (t : SyntaxTree) (i : NodeId) : Nat × Nat :=
  ((t.node i).startByte, (t.node i).endByte)

namespace Shape

def range (s : Shape) : Nat × Nat := (s.start, s.stop)

inductive Throughout (P : Shape → Prop) : Shape → Prop
  | intro {s : Shape} (here : P s) (below : ∀ c ∈ s.children, Throughout P c) : Throughout P s

variable {P : Shape → Prop}

theorem Throughout.here {s : Shape} (h : Throughout P s) : P s := by
  cases h with
  | intro here below => exact here

theorem hereditary_throughout (P : Shape → Prop) : Hereditary (Throughout P) := by
  intro s hs
  cases hs with
  | intro here below => exact below

theorem Laid.kind_ne {t : SyntaxTree} {src : Source} {parent : Option NodeId} {k i : Nat} {s : Shape}
    {kind : String} (h : Laid src t.node parent k s) (hs : Throughout (fun c => c.kind ≠ kind) s)
    (hi : i ∈ s.reached k) : t.kind i ≠ kind := by
  obtain ⟨hle, hlt⟩ := range_of_mem_reached hi
  obtain ⟨_, c, hc, _, hlaid⟩ := h.part (hereditary_throughout _) hs hle hlt
  rw [hlaid.kind_eq]
  exact hc.here

theorem Laid.range_eq {t : SyntaxTree} {src : Source} {parent : Option NodeId} {k : Nat} {s : Shape}
    (h : Laid src t.node parent k s) : t.range k = s.range := by
  rw [SyntaxTree.range, (laid_iff.1 h).1]
  rfl

theorem LaidAll.map_range {t : SyntaxTree} {src : Source} {p k : Nat} {xs : List Shape}
    (h : LaidAll src t.node p k xs) : (ids k xs).map t.range = xs.map range := by
  induction xs generalizing k with
  | nil => rfl
  | cons s xs ih =>
    obtain ⟨hs, hrest⟩ := h
    rw [ids, List.map_cons, List.map_cons, hs.range_eq, ih hrest]

end Shape
end ProjectIndex
