import Mathlib.Data.List.Basic
import ProjectIndex.Grammar.Twig.Token
import ProjectIndex.Proofs.Text.Boundary

/-! The tokens of a statement in the source it stands in, one behind the other. -/
namespace ProjectIndex.Twig

open ProjectIndex.Text

def IsIdentifier (s : List Char) : Prop :=
  ∃ c rest, s = c :: rest ∧ startsIdentifier c = true ∧ ∀ d ∈ rest, inIdentifier d = true

instance : DecidablePred IsIdentifier
  | [] => .isFalse fun ⟨_, _, h, _⟩ => by cases h
  | c :: rest =>
    decidable_of_iff (startsIdentifier c = true ∧ rest.all inIdentifier = true)
      ⟨fun h => ⟨c, rest, rfl, h.imp_right List.all_eq_true.1⟩,
        fun ⟨_, _, h, hc⟩ => by cases h; exact hc.imp_right List.all_eq_true.2⟩

theorem isQuote_eq_false {class_ : Char → Bool} {c : Char} (hc : class_ c = true)
    (hsingle : class_ '\'' = false) (hdouble : class_ '"' = false) : isQuote c = false := by
  by_contra hquote
  rw [Bool.not_eq_false, isQuote, Bool.or_eq_true, beq_iff_eq, beq_iff_eq] at hquote
  rcases hquote with rfl | rfl
  · exact Bool.false_ne_true (hsingle.symm.trans hc)
  · exact Bool.false_ne_true (hdouble.symm.trans hc)

def TokensIn (src : List Char) : Nat → Nat → List Token → Prop
  | pos, stop, [] => pos ≤ stop
  | pos, stop, t :: ts => pos ≤ t.start ∧ OccursAt src t.start t.chars ∧
      (t.isIdentifier = true → IsIdentifier t.chars) ∧ TokensIn src t.stop stop ts

variable {src : List Char} {pos pos' stop stop' : Nat} {ts : List Token}

theorem TokensIn.mono (h : TokensIn src pos stop ts) (hle : pos' ≤ pos) :
    TokensIn src pos' stop ts := by
  cases ts with
  | nil => exact Nat.le_trans hle h
  | cons t ts => exact ⟨Nat.le_trans hle h.1, h.2⟩

theorem TokensIn.extend (h : TokensIn src pos stop ts) (hle : stop ≤ stop') :
    TokensIn src pos stop' ts := by
  induction ts generalizing pos with
  | nil => exact Nat.le_trans h hle
  | cons t ts ih =>
    obtain ⟨hstart, hoccurs, hword, hrest⟩ := h
    exact ⟨hstart, hoccurs, hword, ih hrest⟩

theorem TokensIn.le (h : TokensIn src pos stop ts) : pos ≤ stop := by
  induction ts generalizing pos with
  | nil => exact h
  | cons t ts ih =>
    obtain ⟨hstart, _, _, hrest⟩ := h
    exact Nat.le_trans hstart (Nat.le_trans (Nat.le_add_right ..) (ih hrest))

theorem quoted_append (q : Char) (s : List Char) : (quoted q s).1 ++ (quoted q s).2 = s := by
  fun_induction quoted q s <;> simp_all +zetaDelta

theorem isIdentifier_takeWhile {c : Char} (hc : startsIdentifier c = true) (s : List Char) :
    IsIdentifier (c :: s.takeWhile inIdentifier) :=
  ⟨c, _, rfl, hc, fun _ hd => List.all_eq_true.1 List.all_takeWhile _ hd⟩

theorem tokensIn_cons {t : Token} {s rest : List Char} (hs : t.chars ++ rest = s)
    (hpos : t.start = pos) (h : OccursAt src pos s)
    (hword : t.isIdentifier = true → IsIdentifier t.chars)
    (hrest : OccursAt src t.stop rest → TokensIn src t.stop (t.stop + byteLength rest) ts) :
    TokensIn src pos (pos + byteLength s) (t :: ts) := by
  subst hs hpos
  have hstop : t.start + byteLength (t.chars ++ rest) = t.stop + byteLength rest := by
    rw [byteLength_append, Token.stop, Nat.add_assoc]
  rw [hstop]
  exact ⟨Nat.le_refl _, h.left, hword, hrest h.right⟩

theorem tokensIn_tokenize {s : List Char} (h : OccursAt src pos s) :
    TokensIn src pos (pos + byteLength s) (tokenize pos s) := by
  fun_induction tokenize pos s with
  | case1 => exact Nat.le_add_right ..
  | case2 pos c s _ ih =>
    have hrest : OccursAt src (pos + c.utf8Size) s := h.right (x := [c])
    rw [byteLength_cons, ← Nat.add_assoc]
    exact (ih hrest).mono (Nat.le_add_right ..)
  | case3 pos c s _ hquote token ih =>
    exact tokensIn_cons (congrArg (c :: ·) (quoted_append c s)) rfl h nofun ih
  | case4 pos c s _ _ hword token ih =>
    exact tokensIn_cons (congrArg (c :: ·) List.takeWhile_append_dropWhile) rfl h
      (fun _ => isIdentifier_takeWhile hword s) ih
  | case5 pos c s _ _ _ ih =>
    have htext : [c] ++ s = c :: s := rfl
    exact tokensIn_cons (t := ⟨.other, pos, [c]⟩) htext rfl h nofun ih

theorem isIdentifier_of_mem_tokenize {s : List Char} {t : Token} (h : t ∈ tokenize pos s) (hword : t.isIdentifier = true) :
    IsIdentifier t.chars := by
  fun_induction tokenize pos s with
  | case1 => cases h
  | case2 pos c s _ ih => exact ih h
  | case3 pos c s _ _ token ih =>
    rcases List.mem_cons.1 h with rfl | h
    · cases hword
    · exact ih h
  | case4 pos c s _ _ hstart token ih =>
    rcases List.mem_cons.1 h with rfl | h
    · exact isIdentifier_takeWhile hstart s
    · exact ih h
  | case5 pos c s _ _ _ ih =>
    rcases List.mem_cons.1 h with rfl | h
    · cases hword
    · exact ih h

/-- Where a text begins shows in the offsets of its tokens only. -/
theorem map_tokenize (pos pos' : Nat) (s : List Char) :
    (tokenize pos s).map (fun t => (t.kind, t.chars)) =
      (tokenize pos' s).map fun t => (t.kind, t.chars) := by
  fun_induction tokenize pos s generalizing pos' with
  | case1 => rw [tokenize]
  | case2 pos c s hgap ih =>
    rw [tokenize, if_pos hgap]
    exact ih _
  | case3 pos c s hgap hquote token ih =>
    rw [tokenize, if_neg hgap, if_pos hquote, List.map_cons, List.map_cons, ih]
  | case4 pos c s hgap hquote hstart token ih =>
    rw [tokenize, if_neg hgap, if_neg hquote, if_pos hstart, List.map_cons, List.map_cons, ih]
  | case5 pos c s hgap hquote hstart ih =>
    rw [tokenize, if_neg hgap, if_neg hquote, if_neg hstart, List.map_cons, List.map_cons, ih]

end ProjectIndex.Twig
