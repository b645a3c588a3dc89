import Mathlib.Data.List.Basic
import Mathlib.Data.List.Induction

/-!
Sequences of brackets. An opening bracket belongs to the closing one behind the first balanced
stretch that follows it. Reading from left to right with a stack of the brackets that are open finds
exactly these pairs: what is left on the stack has no partner, and a sequence is balanced if the
stack ends empty and was never empty at a closing bracket.
-/
namespace ProjectIndex

structure Bracket where
  opens : Bool
  start : Nat
  stop : Nat
deriving DecidableEq, Inhabited, Repr

namespace Bracket

inductive Balanced : List Bracket → Prop
  | nil : Balanced []
  | pair {o c : Bracket} {inner rest : List Bracket} (ho : o.opens = true) (hc : c.opens = false)
    (hinner : Balanced inner) (hrest : Balanced rest) : Balanced (o :: (inner ++ c :: rest))

theorem Balanced.append {u v : List Bracket} (hu : Balanced u) (hv : Balanced v) :
    Balanced (u ++ v) := by
  induction hu with
  | nil => exact hv
  | pair ho hc hinner _ _ ih =>
    rw [List.cons_append, List.append_assoc, List.cons_append]
    exact .pair ho hc hinner ih

def OpensAt (bs : List Bracket) (j : Nat) : Prop := ∃ o, bs[j]? = some o ∧ o.opens = true

def Matches (bs : List Bracket) (j k : Nat) : Prop :=
  ∃ before o inner c after, bs = before ++ o :: (inner ++ c :: after) ∧ before.length = j ∧
    j + 1 + inner.length = k ∧ o.opens = true ∧ c.opens = false ∧ Balanced inner

def Unmatched (bs : List Bracket) (j : Nat) : Prop := OpensAt bs j ∧ ∀ k, ¬ Matches bs j k

/-- Whether a place lies behind an opening bracket and before its partner, if it has one. -/
def Encloses (bs : List Bracket) (j i : Nat) : Prop := j < i ∧ ∀ k, Matches bs j k → i < k

def pushOrPop (n : Nat) (st : List Nat) (b : Bracket) : List Nat :=
  if b.opens then n :: st else st.tail

/-- The places of the open brackets behind more brackets, the first of them at place `n`. -/
def stackFrom : Nat → List Nat → List Bracket → List Nat
  | _, st, [] => st
  | n, st, b :: bs => stackFrom (n + 1) (pushOrPop n st b) bs

def stack (bs : List Bracket) : List Nat := stackFrom 0 [] bs

def straysFrom : Nat → List Nat → List Bracket → Bool
  | _, _, [] => false
  | n, st, b :: bs => (!b.opens && st.isEmpty) || straysFrom (n + 1) (pushOrPop n st b) bs

def strays (bs : List Bracket) : Bool := straysFrom 0 [] bs

theorem stackFrom_append (n : Nat) (st : List Nat) (u v : List Bracket) :
    stackFrom n st (u ++ v) = stackFrom (n + u.length) (stackFrom n st u) v := by
  induction u generalizing n st with
  | nil => rfl
  | cons b u ih =>
    rw [List.cons_append, stackFrom, ih, stackFrom, List.length_cons, Nat.add_right_comm,
      Nat.add_assoc]

theorem straysFrom_append (n : Nat) (st : List Nat) (u v : List Bracket) :
    straysFrom n st (u ++ v) =
      (straysFrom n st u || straysFrom (n + u.length) (stackFrom n st u) v) := by
  induction u generalizing n st with
  | nil => rfl
  | cons b u ih =>
    rw [List.cons_append, straysFrom, ih, straysFrom, stackFrom, Bool.or_assoc, List.length_cons,
      Nat.add_right_comm, Nat.add_assoc]

theorem stack_concat (bs : List Bracket) (b : Bracket) :
    stack (bs ++ [b]) = pushOrPop bs.length (stack bs) b := by
  rw [stack, stackFrom_append, Nat.zero_add]
  rfl

theorem strays_concat (bs : List Bracket) (b : Bracket) :
    strays (bs ++ [b]) = (strays bs || (!b.opens && (stack bs).isEmpty)) := by
  rw [strays, straysFrom_append, straysFrom, straysFrom, Bool.or_false]
  rfl

theorem Balanced.stackFrom {w : List Bracket} (h : Balanced w) (n : Nat) (st : List Nat) :
    stackFrom n st w = st ∧ straysFrom n st w = false := by
  induction h generalizing n st with
  | nil => exact ⟨rfl, rfl⟩
  | pair ho hc _ _ ihinner ihrest =>
    rw [Bracket.stackFrom, straysFrom, pushOrPop, if_pos ho, ho, stackFrom_append,
      straysFrom_append, (ihinner (n + 1) (n :: st)).1, (ihinner (n + 1) (n :: st)).2,
      Bracket.stackFrom, straysFrom, pushOrPop, if_neg (by simp [hc]), List.tail_cons]
    exact ⟨(ihrest _ st).1, by simp [(ihrest _ st).2]⟩

theorem exists_of_stack_cons {w : List Bracket} {j : Nat} {st : List Nat}
    (h : stack w = j :: st) :
    ∃ before o inner, w = before ++ o :: inner ∧ before.length = j ∧ o.opens = true ∧
      Balanced inner ∧ stack before = st := by
  induction hlength : w.length using Nat.strongRecOn generalizing w j st with
  | _ n ih =>
    induction w using List.reverseRecOn with
    | nil => cases h
    | append_singleton w b _ =>
      rw [List.length_append, List.length_singleton] at hlength
      rw [stack_concat, pushOrPop] at h
      by_cases hb : b.opens = true
      · rw [if_pos hb] at h
        cases h
        exact ⟨w, b, [], rfl, rfl, hb, .nil, rfl⟩
      · -- The bracket closes the innermost one; the next on the stack is looked for before that.
        rw [if_neg hb] at h
        obtain ⟨i, hi⟩ : ∃ i, stack w = i :: j :: st := by
          cases hw : stack w with
          | nil => simp [hw] at h
          | cons i rest => exact ⟨i, by rw [← h, hw, List.tail_cons]⟩
        obtain ⟨before, o, inner, hsplit, hbefore, ho, hinner, hstack⟩ :=
          ih w.length (by omega) hi rfl
        have hshorter : before.length < n := by
          have := congrArg List.length hsplit
          rw [List.length_append, List.length_cons] at this
          omega
        obtain ⟨before', o', inner', hsplit', hbefore', ho', hinner', hstack'⟩ :=
          ih before.length hshorter hstack rfl
        refine ⟨before', o', inner' ++ o :: (inner ++ [b]), ?_, hbefore', ho', ?_, hstack'⟩
        · rw [hsplit, hsplit']
          simp
        · exact hinner'.append (.pair ho (by simpa using hb) hinner .nil)

theorem mem_stackFrom {n i : Nat} {st : List Nat} {w : List Bracket}
    (h : i ∈ stackFrom n st w) : i ∈ st ∨ n ≤ i := by
  induction w generalizing n st with
  | nil => exact .inl h
  | cons b w ih =>
    rcases ih h with hmem | hle
    · unfold pushOrPop at hmem
      split at hmem
      · rcases List.mem_cons.1 hmem with rfl | hmem
        · exact .inr (Nat.le_refl _)
        · exact .inl hmem
      · exact .inl (List.mem_of_mem_tail hmem)
    · exact .inr (by omega)

theorem stack_eq_of_cons {w before inner : List Bracket} {o : Bracket}
    (hw : w = before ++ o :: inner) (ho : o.opens = true) (hinner : Balanced inner) :
    stack w = before.length :: stack before := by
  rw [hw, stack, stackFrom_append, stackFrom, pushOrPop, if_pos ho, (hinner.stackFrom _ _).1,
    Nat.zero_add]
  rfl

theorem Matches.lt {bs : List Bracket} {j k : Nat} (h : Matches bs j k) :
    j < k ∧ k < bs.length := by
  obtain ⟨before, o, inner, c, after, rfl, rfl, rfl, _⟩ := h
  refine ⟨by omega, ?_⟩
  simp only [List.length_append, List.length_cons]
  omega

theorem Matches.append {bs : List Bracket} {j k : Nat} (h : Matches bs j k)
    (more : List Bracket) : Matches (bs ++ more) j k := by
  obtain ⟨before, o, inner, c, after, rfl, hj, hk, ho, hc, hinner⟩ := h
  exact ⟨before, o, inner, c, after ++ more, by simp, hj, hk, ho, hc, hinner⟩

theorem Matches.opensAt {bs : List Bracket} {j k : Nat} (h : Matches bs j k) : OpensAt bs j := by
  obtain ⟨before, o, inner, c, after, rfl, rfl, _, ho, _⟩ := h
  exact ⟨o, by simp, ho⟩

theorem OpensAt.lt {bs : List Bracket} {j : Nat} (h : OpensAt bs j) : j < bs.length := by
  obtain ⟨o, ho, _⟩ := h
  exact (List.getElem?_eq_some_iff.1 ho).1

theorem opensAt_append {bs more : List Bracket} {j : Nat} (hj : j < bs.length) :
    OpensAt (bs ++ more) j ↔ OpensAt bs j := by
  unfold OpensAt
  rw [List.getElem?_append_left hj]

theorem matches_append {bs more : List Bracket} {j k : Nat} (hk : k < bs.length) :
    Matches (bs ++ more) j k ↔ Matches bs j k := by
  refine ⟨?_, fun h => h.append more⟩
  rintro ⟨before, o, inner, c, after, hsplit, rfl, rfl, ho, hc, hinner⟩
  have hsplit' : bs ++ more = (before ++ o :: (inner ++ [c])) ++ after := by
    rw [hsplit]
    simp
  have hlength : (before ++ o :: (inner ++ [c])).length ≤ bs.length := by
    simp only [List.length_append, List.length_cons, List.length_nil]
    omega
  obtain ⟨rest, hrest⟩ : before ++ o :: (inner ++ [c]) <+: bs :=
    List.prefix_of_prefix_length_le ⟨after, hsplit'.symm⟩ (List.prefix_append bs more) hlength
  exact ⟨before, o, inner, c, rest, by rw [← hrest]; simp, rfl, rfl, ho, hc, hinner⟩

theorem matches_concat {bs : List Bracket} {b : Bracket} {j : Nat} :
    Matches (bs ++ [b]) j bs.length ↔ b.opens = false ∧ ∃ st, stack bs = j :: st := by
  constructor
  · rintro ⟨before, o, inner, c, after, hsplit, rfl, hk, ho, hc, hinner⟩
    have hlast : bs ++ [b] = (before ++ o :: inner) ++ c :: after := by
      rw [hsplit]
      simp
    have hlength : bs.length = (before ++ o :: inner).length := by
      rw [← hk, List.length_append, List.length_cons]
      omega
    obtain ⟨hbs, hb⟩ := List.append_inj hlast hlength
    cases hb
    exact ⟨hc, _, stack_eq_of_cons hbs ho hinner⟩
  · rintro ⟨hb, st, hstack⟩
    obtain ⟨before, o, inner, hsplit, hj, ho, hinner, _⟩ := exists_of_stack_cons hstack
    refine ⟨before, o, inner, b, [], ?_, hj, ?_, ho, hb, hinner⟩
    · rw [hsplit]
      simp
    · rw [hsplit, List.length_append, List.length_cons]
      omega

theorem opensAt_of_mem_stack {bs : List Bracket} {j : Nat} (h : j ∈ stack bs) : OpensAt bs j := by
  induction bs using List.reverseRecOn with
  | nil => exact absurd h List.not_mem_nil
  | append_singleton bs b ih =>
    have hold : j ∈ stack bs → OpensAt (bs ++ [b]) j := fun hmem =>
      (opensAt_append (ih hmem).lt).2 (ih hmem)
    rw [stack_concat, pushOrPop] at h
    split at h
    · next hb =>
      rcases List.mem_cons.1 h with rfl | hmem
      · exact ⟨b, by simp, hb⟩
      · exact hold hmem
    · exact hold (List.mem_of_mem_tail h)

theorem mem_stack {bs : List Bracket} {j : Nat} : j ∈ stack bs ↔ Unmatched bs j := by
  constructor
  · refine fun h => ⟨opensAt_of_mem_stack h, ?_⟩
    rintro k ⟨before, o, inner, c, after, rfl, rfl, _, ho, hc, hinner⟩
    -- Behind the partner the place is off the stack, and only later ones are put on it.
    have hsplit : before ++ o :: (inner ++ c :: after) = (before ++ o :: inner) ++ c :: after := by
      simp
    rw [hsplit, stack, stackFrom_append, stackFrom] at h
    change _ ∈ stackFrom _ (pushOrPop _ (stack (before ++ o :: inner)) c) after at h
    rw [stack_eq_of_cons rfl ho hinner, pushOrPop, if_neg (by simp [hc]), List.tail_cons] at h
    rcases mem_stackFrom h with hmem | hle
    · exact absurd (opensAt_of_mem_stack hmem).lt (Nat.lt_irrefl _)
    · simp only [List.length_append, List.length_cons] at hle
      omega
  · rintro ⟨hopens, hnone⟩
    induction bs using List.reverseRecOn with
    | nil => simp [OpensAt] at hopens
    | append_singleton bs b ih =>
      rw [stack_concat, pushOrPop]
      have hlt := hopens.lt
      rw [List.length_append, List.length_singleton] at hlt
      rcases Nat.lt_succ_iff_lt_or_eq.1 hlt with hj | rfl
      · have hmem := ih ((opensAt_append hj).1 hopens) fun k hk => hnone k (hk.append [b])
        split
        · exact List.mem_cons_of_mem _ hmem
        · next hb =>
          cases hstack : stack bs with
          | nil => simp [hstack] at hmem
          | cons i st =>
            rw [hstack] at hmem
            rcases List.mem_cons.1 hmem with rfl | hmem
            · exact absurd (matches_concat.2 ⟨by simpa using hb, st, hstack⟩) (hnone _)
            · exact hmem
      · obtain ⟨o, ho, hopen⟩ := hopens
        have hbo : b = o := by simpa using ho
        rw [if_pos (hbo ▸ hopen)]
        exact List.mem_cons_self ..

theorem mem_stack_take {bs : List Bracket} {j i : Nat} (hi : OpensAt bs i) :
    j ∈ stack (bs.take i) ↔ OpensAt bs j ∧ Encloses bs j i := by
  have hlength : (bs.take i).length = i := by
    rw [List.length_take]
    exact Nat.min_eq_left (Nat.le_of_lt hi.lt)
  have hmatches : ∀ k, k < i → (Matches bs j k ↔ Matches (bs.take i) j k) := by
    intro k hk
    conv_lhs => rw [← List.take_append_drop i bs]
    exact matches_append (hlength.symm ▸ hk)
  have hopensAt : j < i → (OpensAt bs j ↔ OpensAt (bs.take i) j) := by
    intro hj
    conv_lhs => rw [← List.take_append_drop i bs]
    exact opensAt_append (hlength.symm ▸ hj)
  rw [mem_stack]
  constructor
  · rintro ⟨hopens, hnone⟩
    have hj : j < i := hlength ▸ hopens.lt
    refine ⟨(hopensAt hj).2 hopens, hj, fun k hk => ?_⟩
    -- The partner stands neither at `i`, where a bracket opens, nor in front of it.
    rcases Nat.lt_trichotomy i k with hik | rfl | hki
    · exact hik
    · obtain ⟨before, o, inner, c, after, rfl, rfl, rfl, _, hc, _⟩ := hk
      obtain ⟨o', ho', hopen⟩ := hi
      have hsame : (before ++ o :: (inner ++ c :: after))[before.length + 1 + inner.length]? =
          some c := by
        rw [List.getElem?_append_right (by omega)]
        simp [show before.length + 1 + inner.length - before.length = inner.length + 1 by omega]
      rw [hsame, Option.some.injEq] at ho'
      rw [← ho', hc] at hopen
      cases hopen
    · exact absurd ((hmatches k hki).1 hk) (hnone k)
  · rintro ⟨hopens, hj, hbefore⟩
    refine ⟨(hopensAt hj).1 hopens, fun k hk => ?_⟩
    have hki : k < i := hlength ▸ hk.lt.2
    exact Nat.lt_asymm hki (hbefore k ((hmatches k hki).2 hk))

/-- A sequence is balanced if nothing is left open and nothing was closed that was not open. -/
theorem balanced_iff {bs : List Bracket} :
    Balanced bs ↔ stack bs = [] ∧ strays bs = false := by
  refine ⟨fun h => h.stackFrom 0 [], ?_⟩
  induction hlength : bs.length using Nat.strongRecOn generalizing bs with
  | _ n ih =>
    rintro ⟨hstack, hstrays⟩
    induction bs using List.reverseRecOn with
    | nil => exact .nil
    | append_singleton bs b _ =>
      rw [stack_concat, pushOrPop] at hstack
      rw [strays_concat, Bool.or_eq_false_iff] at hstrays
      split at hstack
      · cases hstack
      · next hb =>
        have hclose : b.opens = false := by simpa using hb
        obtain ⟨j, hj⟩ : ∃ j, stack bs = [j] := by
          cases hbs : stack bs with
          | nil => simp [hclose, hbs] at hstrays
          | cons j st => exact ⟨j, by rw [hbs] at hstack; rw [← hstack, List.tail_cons]⟩
        obtain ⟨before, o, inner, hsplit, _, ho, hinner, hbefore⟩ := exists_of_stack_cons hj
        have hshorter : before.length < n := by
          rw [← hlength, hsplit]
          simp only [List.length_append, List.length_cons]
          omega
        have hnone : strays before = false := by
          have := hstrays.1
          rw [hsplit, strays, straysFrom_append, Bool.or_eq_false_iff] at this
          exact this.1
        have hbalanced := ih before.length hshorter rfl ⟨hbefore, hnone⟩
        rw [hsplit, List.append_assoc, List.cons_append]
        exact hbalanced.append (.pair ho hclose hinner .nil)

end Bracket
end ProjectIndex
