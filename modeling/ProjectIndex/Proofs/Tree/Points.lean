import Mathlib.Data.List.Induction
import Mathlib.Data.Nat.SuccPred
import Mathlib.Data.Prod.Lex
import Mathlib.Order.Interval.Set.Monotone
import ProjectIndex.Proofs.Grammar.Twig.Cuts
import ProjectIndex.Proofs.Tree.Calls
import ProjectIndex.Proofs.Tree.Reading
import ProjectIndex.Text.Utf8

/-!
The point of a byte offset. Its row and its column count bytes: the line feeds in front of it, and
the bytes behind the last of them. They are found by halving the starts of the lines, where neither
an index nor a difference ever fails, and they grow with the offset up to the end of the source.
-/
namespace ProjectIndex

open ProjectIndex.Text

def lineFeed : UInt8 := 0x0A

namespace Point

def order (p : Point) : ℕ ×ₗ ℕ := toLex (p.row, p.column)

def advance (p : Point) (b : UInt8) : Point :=
  if b = lineFeed then ⟨p.row + 1, 0⟩ else ⟨p.row, p.column + 1⟩

/-- The point behind some bytes: the line feeds among them, and the bytes behind the last of those. -/
def behind (seen : List UInt8) : Point :=
  ⟨seen.count lineFeed, (seen.reverse.takeWhile (· ≠ lineFeed)).length⟩

theorem behind_concat (seen : List UInt8) (b : UInt8) :
    behind (seen ++ [b]) = (behind seen).advance b := by
  by_cases hb : b = lineFeed
  · subst hb
    simp [behind, advance]
  · simp [behind, advance, hb]

theorem order_lt_advance (p : Point) (b : UInt8) : p.order < (p.advance b).order := by
  unfold advance
  split
  · exact Prod.Lex.toLex_lt_toLex.2 (.inl (Nat.lt_succ_self _))
  · exact Prod.Lex.toLex_lt_toLex.2 (.inr ⟨rfl, Nat.lt_succ_self _⟩)

theorem strictMonoOn_behind_take (bytes : List UInt8) :
    StrictMonoOn (fun offset => (behind (bytes.take offset)).order) (Set.Iic bytes.length) := by
  refine strictMonoOn_Iic_of_lt_succ fun offset hoffset => ?_
  have hnext : bytes.take (offset + 1) = bytes.take offset ++ [bytes[offset]] :=
    List.take_succ_eq_append_getElem hoffset
  change _ < (behind (bytes.take (offset + 1))).order
  rw [hnext, behind_concat]
  exact order_lt_advance ..

end Point

def feedsBehind (pos : Nat) (bytes : List UInt8) : List Nat :=
  ((bytes.zipIdx pos).filter fun p => p.1 == lineFeed).map fun p => p.2 + 1

section Feeds

variable {pos : Nat}

theorem feedsBehind_append (xs ys : List UInt8) :
    feedsBehind pos (xs ++ ys) = feedsBehind pos xs ++ feedsBehind (pos + xs.length) ys := by
  simp only [feedsBehind, List.zipIdx_append, List.filter_append, List.map_append]

theorem feedsBehind_singleton (b : UInt8) :
    feedsBehind pos [b] = if b = lineFeed then [pos + 1] else [] := by
  by_cases hb : b = lineFeed
  · simp [feedsBehind, hb]
  · simp [feedsBehind, hb]

theorem feedsBehind_of_notMem {bytes : List UInt8} (h : lineFeed ∉ bytes) :
    feedsBehind pos bytes = [] := by
  rw [feedsBehind, List.map_eq_nil_iff, List.filter_eq_nil_iff]
  rintro ⟨b, i⟩ hb heq
  exact h (beq_iff_eq.1 heq ▸ List.fst_mem_of_mem_zipIdx hb)

theorem mem_feedsBehind {bytes : List UInt8} {n : Nat} (h : n ∈ feedsBehind pos bytes) :
    pos < n ∧ n ≤ pos + bytes.length := by
  obtain ⟨⟨b, i⟩, hb, rfl⟩ := List.mem_map.1 h
  have hlow := List.le_snd_of_mem_zipIdx (List.mem_of_mem_filter hb)
  have hhigh := List.snd_lt_add_of_mem_zipIdx (List.mem_of_mem_filter hb)
  change pos < i + 1 ∧ i + 1 ≤ _
  omega

theorem lineFeed_mem_utf8EncodeChar {c : Char} (h : lineFeed ∈ String.utf8EncodeChar c) :
    c = '\n' := by
  by_cases hc : c.toNat ≤ 127
  · rw [Twig.Quoting.toNat_eq_of_utf8EncodeChar hc, List.mem_singleton] at h
    exact (Twig.Quoting.ofNat_toNat_eq_iff hc (by decide)).1 h.symm
  · have hhigh := Twig.Quoting.high_of_mem_utf8EncodeChar (Nat.lt_of_not_le hc) _ h
    exact absurd hhigh (by decide)

theorem feedsBehind_encode (src : Source) : feedsBehind pos (encode src) = lineStartsFrom pos src := by
  induction src generalizing pos with
  | nil => rfl
  | cons c src ih =>
    have hbytes : encode (c :: src) = String.utf8EncodeChar c ++ encode src := rfl
    rw [hbytes, feedsBehind_append, String.length_utf8EncodeChar, ih, lineStartsFrom]
    by_cases hc : c = '\n'
    · subst hc
      rfl
    · rw [feedsBehind_of_notMem fun h => hc (lineFeed_mem_utf8EncodeChar h), if_neg hc,
        List.nil_append]

theorem length_encode (src : Source) : (encode src).length = byteLength src := by
  induction src with
  | nil => rfl
  | cons c src ih =>
    have hbytes : encode (c :: src) = String.utf8EncodeChar c ++ encode src := rfl
    rw [hbytes, List.length_append, String.length_utf8EncodeChar, ih, byteLength_cons]

/-- What the starts of the lines say about the end of some bytes is the point behind them. -/
theorem behind_eq_feedsBehind (seen : List UInt8) :
    (Point.behind seen).row = (feedsBehind 0 seen).length ∧
      (feedsBehind 0 seen).getLastD 0 + (Point.behind seen).column = seen.length := by
  induction seen using List.reverseRecOn with
  | nil => exact ⟨rfl, rfl⟩
  | append_singleton seen b ih =>
    obtain ⟨hrow, hcolumn⟩ := ih
    rw [Point.behind_concat, feedsBehind_append, feedsBehind_singleton, Point.advance]
    split
    · simp [hrow]
    · rw [List.append_nil, List.length_append, ← hcolumn]
      exact ⟨hrow, rfl⟩

end Feeds

section Halving

/-- The number of entries that pass a test, when those that pass stand in front of the others. Each
entry that is read is checked to be there. -/
def bisect (test : Nat → Bool) (entries : List Nat) (low high : Nat) : Option Nat :=
  if low < high then do
    let middle := low + (high - low) / 2
    let entry ← entries[middle]?
    if test entry then bisect test entries (middle + 1) high else bisect test entries low middle
  else return low
termination_by high - low

def difference? (m n : Nat) : Option Nat := if n ≤ m then some (m - n) else none

variable {test : Nat → Bool} {front back : List Nat}

/-- Every entry below is one that passes and every entry from above on is one that does not, and the
gap closes. -/
theorem bisect_eq (hfront : ∀ n ∈ front, test n = true) (hback : ∀ n ∈ back, test n = false)
    {low high : Nat} (hlow : low ≤ front.length) (hhigh : front.length ≤ high)
    (hlength : high ≤ (front ++ back).length) :
    bisect test (front ++ back) low high = some front.length := by
  induction hwidth : high - low using Nat.strongRecOn generalizing low high with
  | _ width ih =>
    rw [bisect]
    split
    · next hlt =>
      obtain ⟨middle, hmiddle⟩ : ∃ middle, middle = low + (high - low) / 2 := ⟨_, rfl⟩
      have hrange : low ≤ middle ∧ middle < high := by omega
      simp only [← hmiddle]
      by_cases hside : middle < front.length
      · have hpass : test front[middle] = true := hfront _ (List.getElem_mem hside)
        rw [List.getElem?_append_left hside, List.getElem?_eq_getElem hside]
        simp only [Option.bind_eq_bind, Option.bind_some, if_pos hpass]
        exact ih (high - (middle + 1)) (by omega) hside hhigh hlength rfl
      · have hside := Nat.le_of_not_lt hside
        have hback_lt : middle - front.length < back.length := by
          rw [List.length_append] at hlength
          omega
        have hfail : ¬ test back[middle - front.length] = true := by
          rw [hback _ (List.getElem_mem hback_lt)]
          exact Bool.false_ne_true
        rw [List.getElem?_append_right hside, List.getElem?_eq_getElem hback_lt]
        simp only [Option.bind_eq_bind, Option.bind_some, if_neg hfail]
        exact ih (middle - low) (by omega) hlow hside (by omega) rfl
    · next hge =>
      have heq : low = front.length := by omega
      rw [heq]
      rfl

theorem difference?_of_le {m n : Nat} (h : n ≤ m) : difference? m n = some (m - n) := if_pos h

theorem getElem?_length_front (start : Nat) (front back : List Nat) :
    (start :: (front ++ back))[front.length]? = some (front.getLastD start) := by
  induction front generalizing start with
  | nil => rfl
  | cons n front ih =>
    rw [List.getLastD_cons, ← ih n]
    rfl

theorem getLastD_le {byte start : Nat} (hstart : start ≤ byte) (hfront : ∀ n ∈ front, n ≤ byte) :
    front.getLastD start ≤ byte := by
  induction front generalizing start with
  | nil => exact hstart
  | cons n front ih =>
    obtain ⟨hn, hrest⟩ := List.forall_mem_cons.1 hfront
    rw [List.getLastD_cons]
    exact ih hn hrest

def pointFrom? (starts : List Nat) (byte : Nat) : Option Point := do
  let count ← bisect (fun start => decide (start ≤ byte)) starts 0 starts.length
  let row ← difference? count 1
  let start ← starts[row]?
  let column ← difference? byte start
  return ⟨row, column⟩

theorem pointFrom?_eq {byte : Nat} (hfront : ∀ n ∈ front, n ≤ byte) (hback : ∀ n ∈ back, byte < n) :
    pointFrom? (0 :: (front ++ back)) byte = some ⟨front.length, byte - front.getLastD 0⟩ := by
  have hcount : bisect (fun start => decide (start ≤ byte)) (0 :: front ++ back) 0
      (0 :: front ++ back).length = some (front.length + 1) := by
    refine bisect_eq (fun n hn => decide_eq_true ?_) (fun n hn => decide_eq_false ?_)
      (Nat.zero_le _) ?_ (Nat.le_refl _)
    · rcases List.mem_cons.1 hn with rfl | hn
      · exact Nat.zero_le _
      · exact hfront n hn
    · exact Nat.not_le.2 (hback n hn)
    · rw [List.length_append]
      exact Nat.le_add_right ..
  have hrow : difference? (front.length + 1) 1 = some front.length :=
    difference?_of_le (Nat.le_add_left ..)
  have hstart := getElem?_length_front 0 front back
  have hcolumn := difference?_of_le (getLastD_le (Nat.zero_le byte) hfront)
  rw [List.cons_append] at hcount
  simp only [pointFrom?, hcount, hrow, hstart, hcolumn, Option.bind_eq_bind, Option.bind_some,
    Option.pure_def]

end Halving

namespace TreeBuilder

def pointAt? (b : TreeBuilder) (offset : Nat) : Option Point :=
  pointFrom? (0 :: b.lineStarts) (min offset b.sourceLength)

section Points

variable {src : Source} {b : TreeBuilder}

theorem exists_lineStarts_eq (src : Source) (offset : Nat) :
    ∃ later, lineStartsFrom 0 src = feedsBehind 0 ((encode src).take offset) ++ later ∧
      (∀ n ∈ feedsBehind 0 ((encode src).take offset), n ≤ min offset (byteLength src)) ∧
      ∀ n ∈ later, min offset (byteLength src) < n := by
  have hlength : ((encode src).take offset).length = min offset (byteLength src) := by
    rw [List.length_take, length_encode]
  refine ⟨feedsBehind (min offset (byteLength src)) ((encode src).drop offset), ?_, ?_, ?_⟩
  · rw [← feedsBehind_encode, ← hlength]
    conv_lhs => rw [← List.take_append_drop offset (encode src), feedsBehind_append, Nat.zero_add]
  · intro n hn
    have hrange := mem_feedsBehind hn
    omega
  · intro n hn
    exact (mem_feedsBehind hn).1

theorem pointAt?_eq (hlines : b.lineStarts = lineStartsFrom 0 src)
    (hlength : b.sourceLength = byteLength src) (offset : Nat) :
    b.pointAt? offset = some (b.pointAt offset) := by
  obtain ⟨later, hstarts, hfront, hlater⟩ := exists_lineStarts_eq src offset
  rw [pointAt?, pointAt, hlines, hlength, hstarts, pointFrom?_eq hfront hlater,
    lastStart_append hfront hlater, Nat.zero_add]

theorem pointOf_eq_behind (src : Source) (offset : Nat) :
    pointOf src offset = Point.behind ((encode src).take offset) := by
  obtain ⟨later, hstarts, hfront, hlater⟩ := exists_lineStarts_eq src offset
  obtain ⟨hrow, hcolumn⟩ := behind_eq_feedsBehind ((encode src).take offset)
  have hlines : (new src).lineStarts = lineStartsFrom 0 src := rfl
  have hlength : (new src).sourceLength = byteLength src := rfl
  rw [List.length_take, length_encode] at hcolumn
  rw [pointOf, pointAt, hlines, hlength, hstarts, lastStart_append hfront hlater, Nat.zero_add]
  change (⟨_, _ - _⟩ : Point) = _
  rw [← hrow, ← hcolumn, Nat.add_sub_cancel_left]

/-- Every builder of a source gives each offset, inside a character or beyond the end too, the point
behind the bytes in front of it. Points grow with the offset to the end and stay there. -/
theorem points_grow_with_bytes (src : Source) (calls : List Call) :
    let b := after src calls
    let bytes := encode src
    (∀ offset, b.pointAt? offset = some (b.pointAt offset)) ∧
      (∀ offset, b.pointAt offset = Point.behind (bytes.take (min offset bytes.length))) ∧
      StrictMonoOn (fun offset => (b.pointAt offset).order) (Set.Iic bytes.length) ∧
      ∀ beyond, b.pointAt (bytes.length + beyond) = b.pointAt bytes.length := by
  intro b bytes
  have hb : Consistent src b := Consistent.after src calls
  have hpoint : ∀ offset, b.pointAt offset = Point.behind (bytes.take offset) := fun offset =>
    (hb.pointAt_eq offset).trans (pointOf_eq_behind src offset)
  refine ⟨pointAt?_eq hb.lineStarts hb.sourceLength, fun offset => ?_, ?_, fun beyond => ?_⟩
  · rw [hpoint, ← List.take_eq_take_min]
  · simp only [hpoint]
    exact Point.strictMonoOn_behind_take bytes
  · rw [hpoint, hpoint, List.take_length, List.take_of_length_le (Nat.le_add_right ..)]

example : let b := new "é\n\nx\n".toList
    (List.range 8).map b.pointAt =
      [⟨0, 0⟩, ⟨0, 1⟩, ⟨0, 2⟩, ⟨1, 0⟩, ⟨2, 0⟩, ⟨2, 1⟩, ⟨3, 0⟩, ⟨3, 0⟩] := by
  decide +kernel

end Points
end TreeBuilder
end ProjectIndex
