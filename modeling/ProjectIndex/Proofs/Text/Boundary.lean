import Mathlib.Data.List.Basic
import ProjectIndex.Text.Bytes

/-! Offsets between the characters of a text. A text is cut at them without any loss. -/
namespace ProjectIndex.Text

@[simp]
theorem byteLength_nil : byteLength [] = 0 := rfl

@[simp]
theorem byteLength_cons (c : Char) (s : List Char) :
    byteLength (c :: s) = c.utf8Size + byteLength s := rfl

@[simp]
theorem byteLength_append (u v : List Char) :
    byteLength (u ++ v) = byteLength u + byteLength v := by
  induction u with
  | nil => simp
  | cons c u ih => simp [ih, Nat.add_assoc]

theorem length_le_byteLength (s : List Char) : s.length ≤ byteLength s := by
  induction s with
  | nil => exact Nat.le_refl 0
  | cons c s ih =>
    have hpos := c.utf8Size_pos
    rw [List.length_cons, byteLength_cons]
    omega

/-- Whether a character starts at an offset, or the text ends there. -/
def Boundary (s : List Char) (n : Nat) : Prop := ∃ u v, s = u ++ v ∧ byteLength u = n

theorem dropBytes?_append (u v : List Char) : dropBytes? (byteLength u) (u ++ v) = some v := by
  induction u with
  | nil => cases v <;> simp [dropBytes?]
  | cons c u ih =>
    have hpos := c.utf8Size_pos
    rw [List.cons_append, byteLength_cons, dropBytes?, if_neg (by omega), if_pos (by omega),
      Nat.add_sub_cancel_left]
    exact ih

theorem takeBytes?_append (u v : List Char) : takeBytes? (byteLength u) (u ++ v) = some u := by
  induction u with
  | nil => cases v <;> simp [takeBytes?]
  | cons c u ih =>
    have hpos := c.utf8Size_pos
    rw [List.cons_append, byteLength_cons, takeBytes?, if_neg (by omega), if_pos (by omega),
      Nat.add_sub_cancel_left, ih]
    rfl

theorem slice_append (u v w : List Char) :
    slice (u ++ v ++ w) (byteLength u) (byteLength u + byteLength v) = v := by
  rw [slice, if_pos (Nat.le_add_right ..), List.append_assoc, dropBytes?_append,
    Nat.add_sub_cancel_left, Option.bind_some, takeBytes?_append]
  rfl

theorem Boundary.le {s : List Char} {n : Nat} (h : Boundary s n) : n ≤ byteLength s := by
  obtain ⟨u, v, rfl, rfl⟩ := h
  simp

theorem boundary_zero (s : List Char) : Boundary s 0 := ⟨[], s, rfl, rfl⟩

theorem boundary_byteLength (s : List Char) : Boundary s (byteLength s) :=
  ⟨s, [], (List.append_nil s).symm, rfl⟩

theorem Boundary.between {s : List Char} {a b : Nat} (ha : Boundary s a) (hb : Boundary s b)
    (hab : a ≤ b) :
    ∃ u v w, s = u ++ v ++ w ∧ byteLength u = a ∧ byteLength u + byteLength v = b := by
  obtain ⟨u, rest, rfl, rfl⟩ := ha
  obtain ⟨uv, w, hsplit, rfl⟩ := hb
  rcases List.append_eq_append_iff.1 hsplit with ⟨v, rfl, rfl⟩ | ⟨v, rfl, rfl⟩
  · exact ⟨u, v, w, by simp, rfl, by simp⟩
  · -- The second part is not longer than the first, so they are the same.
    have hv : v = [] := by
      cases v with
      | nil => rfl
      | cons c v =>
        have hpos := c.utf8Size_pos
        simp only [byteLength_append, byteLength_cons] at hab
        omega
    subst hv
    exact ⟨uv, [], rest, by simp, by simp, by simp⟩

theorem slice_of_boundary {s : List Char} {a b : Nat} (ha : Boundary s a) (hb : Boundary s b)
    (hab : a ≤ b) :
    ∃ u w, s = u ++ slice s a b ++ w ∧ byteLength u = a ∧
      byteLength u + byteLength (slice s a b) = b := by
  obtain ⟨u, v, w, rfl, rfl, rfl⟩ := ha.between hb hab
  rw [slice_append]
  exact ⟨u, w, rfl, rfl, rfl⟩

def OccursAt (s : List Char) (n : Nat) (part : List Char) : Prop :=
  ∃ u w, s = u ++ part ++ w ∧ byteLength u = n

section OccursAt

variable {s x y : List Char} {n : Nat}

theorem OccursAt.self (s : List Char) : OccursAt s 0 s := ⟨[], [], by simp, rfl⟩

theorem OccursAt.of_eq {u w : List Char} (h : s = u ++ (x ++ w)) : OccursAt s (byteLength u) x :=
  ⟨u, w, by rw [h, List.append_assoc], rfl⟩

theorem OccursAt.left (h : OccursAt s n (x ++ y)) : OccursAt s n x := by
  obtain ⟨u, w, rfl, rfl⟩ := h
  exact ⟨u, y ++ w, by simp, rfl⟩

theorem OccursAt.right (h : OccursAt s n (x ++ y)) : OccursAt s (n + byteLength x) y := by
  obtain ⟨u, w, rfl, rfl⟩ := h
  exact ⟨u ++ x, w, by simp, by simp⟩

theorem OccursAt.start (h : OccursAt s n x) : Boundary s n := by
  obtain ⟨u, w, rfl, rfl⟩ := h
  exact ⟨u, x ++ w, by simp, rfl⟩

theorem OccursAt.stop (h : OccursAt s n x) : Boundary s (n + byteLength x) := by
  obtain ⟨u, w, rfl, rfl⟩ := h
  exact ⟨u ++ x, w, by simp, by simp⟩

theorem OccursAt.slice_eq (h : OccursAt s n x) : slice s n (n + byteLength x) = x := by
  obtain ⟨u, w, rfl, rfl⟩ := h
  exact slice_append u x w

end OccursAt

end ProjectIndex.Text
