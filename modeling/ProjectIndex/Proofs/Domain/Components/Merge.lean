import Mathlib.Data.List.MinMax
import Mathlib.Data.Prod.Lex
import ProjectIndex.Domain.Components.Merge

/-!
Which record a merge goes by. The records are compared in pairs, and the merged record of those
before carries every definition path they had. So a record that leads by its own definition path
comes too late when any definition path stood before it: the first record with the most props, which
inherited that path, then keeps its place.
-/
namespace ProjectIndex.Component

/-- What a record brings to a comparison: its props, then a definition path of its own. -/
def standing (c : Component) : ℕ ×ₗ Bool := toLex (c.props.length, c.definitionPath.isSome)

def Anticipated (cs : List Component) (lead : Component) : Prop :=
  ∃ r ∈ cs.takeWhile (· != lead), r.definitionPath.isSome

instance (cs : List Component) (lead : Component) : Decidable (Anticipated cs lead) :=
  inferInstanceAs (Decidable (∃ r ∈ cs.takeWhile (· != lead), r.definitionPath.isSome))

structure GoesBy (m c : Component) : Prop where
  name : m.name = c.name
  filePath : m.filePath = c.filePath
  line : m.line = c.line
  props : m.props = c.props

theorem GoesBy.refl (c : Component) : GoesBy c c := ⟨rfl, rfl, rfl, rfl⟩

instance (m c : Component) : Decidable (GoesBy m c) :=
  decidable_of_iff (m.name = c.name ∧ m.filePath = c.filePath ∧ m.line = c.line ∧ m.props = c.props)
    ⟨fun ⟨h₁, h₂, h₃, h₄⟩ => ⟨h₁, h₂, h₃, h₄⟩, fun h => ⟨h.1, h.2, h.3, h.4⟩⟩

/-! ### One comparison -/

/-- Whether the next record replaces the merged record of those before it. -/
def Overtakes (best next : Component) : Prop :=
  best.props.length < next.props.length ∨ best.props.length = next.props.length ∧
    next.definitionPath.isSome ∧ best.definitionPath.isNone

@[simp] theorem isSome_definitionPath_backfill (c d : Component) :
    (backfill c d).definitionPath.isSome = (c.definitionPath.isSome || d.definitionPath.isSome) := by
  simp [backfill]

theorem orElseList_eq_left {α : Type} {xs ys : List α} (h : ys.length ≤ xs.length) :
    orElseList xs ys = xs := by
  cases xs with
  | nil => simpa [orElseList] using h
  | cons x xs => rfl

theorem GoesBy.backfill {c d o : Component} (h : GoesBy c o) (hd : d.props.length ≤ c.props.length) :
    GoesBy (c.backfill d) o :=
  ⟨h.name, h.filePath, h.line, (orElseList_eq_left hd).trans h.props⟩

theorem mergePair_of_overtakes {b n : Component} (h : Overtakes b n) :
    mergePair b n = backfill n b := by
  unfold Overtakes at h
  unfold mergePair
  grind

theorem mergePair_of_not_overtakes {b n : Component} (h : ¬ Overtakes b n) :
    mergePair b n = backfill b n := by
  unfold Overtakes at h
  unfold mergePair
  grind

theorem isSome_definitionPath_mergePair (b n : Component) :
    (mergePair b n).definitionPath.isSome = (b.definitionPath.isSome || n.definitionPath.isSome) := by
  by_cases h : Overtakes b n
  · rw [mergePair_of_overtakes h, isSome_definitionPath_backfill, Bool.or_comm]
  · rw [mergePair_of_not_overtakes h, isSome_definitionPath_backfill]

/-! ### The whole list -/

def opener? (cs : List Component) : Option Component := cs.find? (·.definitionPath.isSome)

def longest? (cs : List Component) : Option Component := cs.argmax (·.props.length)

/-- The record a merge goes by: the first one with a definition path if none has more props, and else
the first of those with the most. -/
def origin (opener : Option Component) (most : Component) : Component :=
  match opener with
  | some f => if f.props.length = most.props.length then f else most
  | none => most

@[simp] theorem length_props_origin (opener : Option Component) (most : Component) :
    (origin opener most).props.length = most.props.length := by
  unfold origin
  split
  · split <;> simp_all
  · rfl

theorem mem_of_opener? {cs : List Component} {f : Component} (h : opener? cs = some f) : f ∈ cs :=
  List.mem_of_find?_eq_some h

theorem isSome_definitionPath_of_opener? {cs : List Component} {f : Component}
    (h : opener? cs = some f) : f.definitionPath.isSome :=
  List.find?_some (p := fun c : Component => c.definitionPath.isSome) h

theorem length_props_le_of_longest? {cs : List Component} {most c : Component}
    (h : longest? cs = some most) (hc : c ∈ cs) : c.props.length ≤ most.props.length :=
  List.le_of_mem_argmax (f := fun c : Component => c.props.length) hc h

theorem opener?_concat (cs : List Component) (n : Component) :
    opener? (cs ++ [n]) = (opener? cs).or (if n.definitionPath.isSome then some n else none) := by
  simp [opener?, List.find?_append, List.find?_singleton]

theorem longest?_concat {cs : List Component} {most : Component} (h : longest? cs = some most)
    (n : Component) : longest? (cs ++ [n]) =
      some (if most.props.length < n.props.length then n else most) := by
  unfold longest? at h ⊢
  rw [List.argmax_concat, h]
  split <;> simp_all

structure Merged (cs : List Component) (m most : Component) : Prop where
  longest : longest? cs = some most
  goesBy : m.GoesBy (origin (opener? cs) most)
  path : m.definitionPath.isSome = (opener? cs).isSome

theorem Merged.length_props {cs : List Component} {m most : Component} (h : Merged cs m most) :
    m.props.length = most.props.length := by
  rw [h.goesBy.props, length_props_origin]

theorem Merged.singleton (c : Component) : Merged [c] c c where
  longest := rfl
  goesBy := by
    have : origin (opener? [c]) c = c := by
      simp only [opener?, List.find?_singleton, origin]
      split <;> simp_all
    rw [this]
    exact GoesBy.refl c
  path := by simp [opener?, List.find?_singleton]; split <;> simp_all

theorem Merged.origin_of_overtakes {cs : List Component} {m most n : Component}
    (h : Merged cs m most) (ho : Overtakes m n) :
    origin (opener? (cs ++ [n])) (if most.props.length < n.props.length then n else most) = n := by
  rw [opener?_concat]
  -- It has more props than all before it, or as many and the first definition path of all.
  rcases ho with hlt | ⟨heq, hn, hm⟩
  · rw [h.length_props] at hlt
    rw [if_pos hlt]
    cases hf : opener? cs with
    | none => by_cases hn : n.definitionPath.isSome <;> simp [origin, hn]
    | some f =>
      have hle := length_props_le_of_longest? h.longest (mem_of_opener? hf)
      simp [origin, show f.props.length ≠ n.props.length by omega]
  · have hf : opener? cs = none := by
      have := h.path
      simp_all
    rw [h.length_props] at heq
    simp [origin, hf, hn, heq]

theorem Merged.origin_of_not_overtakes {cs : List Component} {m most n : Component}
    (h : Merged cs m most) (ho : ¬ Overtakes m n) :
    origin (opener? (cs ++ [n])) (if most.props.length < n.props.length then n else most) =
      origin (opener? cs) most := by
  simp only [Overtakes, not_or, h.length_props] at ho
  obtain ⟨hle, htie⟩ := ho
  rw [opener?_concat, if_neg hle]
  cases hf : opener? cs with
  | some f => rfl
  | none =>
    have hm : m.definitionPath.isNone := by
      have := h.path
      simp_all
    by_cases hn : n.definitionPath.isSome
    · have : n.props.length ≠ most.props.length := fun he => htie ⟨he.symm, hn, hm⟩
      simp [origin, hn, this]
    · simp [hn]

theorem Merged.concat {cs : List Component} {m most : Component} (h : Merged cs m most)
    (n : Component) : Merged (cs ++ [n]) (mergePair m n)
      (if most.props.length < n.props.length then n else most) where
  longest := longest?_concat h.longest n
  goesBy := by
    by_cases ho : Overtakes m n
    · rw [h.origin_of_overtakes ho, mergePair_of_overtakes ho]
      refine (GoesBy.refl n).backfill ?_
      rcases ho with hlt | ⟨heq, -⟩ <;> omega
    · rw [h.origin_of_not_overtakes ho, mergePair_of_not_overtakes ho]
      exact h.goesBy.backfill (not_lt.mp fun hlt => ho (Or.inl hlt))
  path := by
    rw [isSome_definitionPath_mergePair, h.path, opener?_concat]
    by_cases hn : n.definitionPath.isSome <;> simp [hn]

theorem Merged.foldl {cs : List Component} {m most : Component} (h : Merged cs m most)
    (ns : List Component) : ∃ most', Merged (cs ++ ns) (ns.foldl mergePair m) most' := by
  -- The list behind the fold grows at its end, the one before it shrinks at its head.
  induction ns generalizing cs m most with
  | nil => exact ⟨most, by simpa using h⟩
  | cons n ns ih => simpa using ih (h.concat n)

/-! ### The record that leads -/

theorem idxOf_lt_of_mem_takeWhile {α : Type} [BEq α] [LawfulBEq α] {a r : α} {xs : List α}
    (h : r ∈ xs.takeWhile (· != a)) : xs.idxOf r < xs.idxOf a := by
  induction xs with
  | nil => simp at h
  | cons x xs ih =>
    rw [List.takeWhile_cons] at h
    split at h
    next hx =>
      have hx : (x == a) = false := by simpa using hx
      rw [List.idxOf_cons, List.idxOf_cons, hx]
      rcases List.mem_cons.mp h with rfl | h
      · simp
      · cases x == r with
        | true => simp
        | false => simpa using ih h
    next => simp at h

theorem eq_takeWhile_append_cons {α : Type} [BEq α] [LawfulBEq α] {a : α} {xs : List α}
    (h : a ∈ xs) : ∃ ys, xs = xs.takeWhile (· != a) ++ a :: ys := by
  obtain ⟨as, bs, rfl, hnot⟩ := List.eq_append_cons_of_mem h
  have has : ∀ x ∈ as, (x != a) = true := fun x hx => bne_iff_ne.mpr fun he => hnot (he ▸ hx)
  exact ⟨bs, by simp [List.takeWhile_append_of_pos has]⟩

theorem standing_lt_of_mem_takeWhile {cs : List Component} {lead r : Component}
    (hl : cs.argmax standing = some lead) (hr : r ∈ cs.takeWhile (· != lead)) :
    standing r < standing lead := by
  by_contra hle
  have hidx := List.index_of_argmax hl ((List.takeWhile_sublist _).subset hr) (not_lt.mp hle)
  exact absurd (idxOf_lt_of_mem_takeWhile hr) (not_lt.mpr hidx)

theorem length_props_le_of_standing_le {c d : Component} (h : standing c ≤ standing d) :
    c.props.length ≤ d.props.length := by
  rcases Prod.Lex.toLex_le_toLex.mp h with h | ⟨h, -⟩
  · exact h.le
  · exact h.le

theorem standing_le_of_length_props_le {c d : Component} (h : c.props.length ≤ d.props.length)
    (hp : c.definitionPath.isSome ≤ d.definitionPath.isSome) : standing c ≤ standing d :=
  Prod.Lex.toLex_le_toLex.mpr ((lt_or_eq_of_le h).imp_right fun he => ⟨he, hp⟩)

theorem length_props_of_lead {cs : List Component} {lead most : Component}
    (hl : cs.argmax standing = some lead) (hm : longest? cs = some most) :
    lead.props.length = most.props.length :=
  le_antisymm (length_props_le_of_longest? hm (List.argmax_mem hl))
    (length_props_le_of_standing_le (List.le_of_mem_argmax (List.argmax_mem hm) hl))

/-- Behind a definition path that came too early for the lead, the first record with the most props
is the one the merge goes by. -/
theorem origin_of_anticipated {cs : List Component} {lead most : Component}
    (hl : cs.argmax standing = some lead) (hm : longest? cs = some most)
    (ha : Anticipated cs lead) : origin (opener? cs) most = most := by
  obtain ⟨r, hr, hpath⟩ := ha
  obtain ⟨f, hf⟩ : ∃ f, (cs.takeWhile (· != lead)).find? (·.definitionPath.isSome) = some f :=
    Option.isSome_iff_exists.mp (List.find?_isSome.mpr ⟨r, hr, hpath⟩)
  have hopen : opener? cs = some f := by
    obtain ⟨ys, hys⟩ := eq_takeWhile_append_cons (List.argmax_mem hl)
    rw [opener?, hys, List.find?_append, hf]
    rfl
  -- The first record with a path stands before the lead, and so it has fewer props.
  have hlt := standing_lt_of_mem_takeWhile hl (List.mem_of_find?_eq_some hf)
  have hne : f.props.length ≠ most.props.length := by
    intro he
    refine absurd hlt (not_lt.mpr (standing_le_of_length_props_le ?_ ?_))
    · exact (length_props_of_lead hl hm).trans_le he.ge
    · rw [List.find?_some hf]
      exact Bool.le_true _
  simp [origin, hopen, hne]

/-- A leading record without a definition path is the first one with the most props, and none of
those with as many has one. -/
theorem lead_of_isNone {cs : List Component} {lead most : Component}
    (hl : cs.argmax standing = some lead) (hm : longest? cs = some most)
    (hp : lead.definitionPath = none) : most = lead ∧
      ∀ c ∈ cs, c.definitionPath.isSome → c.props.length ≠ lead.props.length := by
  have hlow (c : Component) (hle : lead.props.length ≤ c.props.length) : standing lead ≤ standing c :=
    standing_le_of_length_props_le hle (by simp [hp])
  refine ⟨?_, fun c hc hpath he => ?_⟩
  · have : longest? cs = some lead := List.argmax_eq_some_iff.mpr ⟨List.argmax_mem hl,
      fun c hc => length_props_le_of_standing_le (List.le_of_mem_argmax hc hl),
      fun c hc hle => List.index_of_argmax hl hc (hlow c hle)⟩
    exact Option.some.inj (hm.symm.trans this)
  · have hle : standing c ≤ standing lead := List.le_of_mem_argmax hc hl
    have htf : true ≤ false := by
      simpa [standing, Prod.Lex.toLex_le_toLex, he, hp, hpath] using hle
    exact absurd htf (by decide)

theorem origin_of_not_anticipated {cs : List Component} {lead most : Component}
    (hl : cs.argmax standing = some lead) (hm : longest? cs = some most)
    (ha : ¬ Anticipated cs lead) : origin (opener? cs) most = lead := by
  cases hp : lead.definitionPath with
  | some path =>
    have hopen : opener? cs = some lead := by
      obtain ⟨ys, hys⟩ := eq_takeWhile_append_cons (List.argmax_mem hl)
      have hnone : (cs.takeWhile (· != lead)).find? (·.definitionPath.isSome) = none :=
        List.find?_eq_none.mpr fun r hr hpath => ha ⟨r, hr, hpath⟩
      rw [opener?, hys, List.find?_append, hnone]
      simp [hp]
    simp [origin, hopen, length_props_of_lead hl hm]
  | none =>
    obtain ⟨rfl, hless⟩ := lead_of_isNone hl hm hp
    cases hopen : opener? cs with
    | none => rfl
    | some f =>
      simp [origin, hless f (mem_of_opener? hopen) (isSome_definitionPath_of_opener? hopen)]

/-- A merge goes by the first record that stands highest, unless a definition path stands before it:
then by the first record with the most props. -/
theorem merge_goesBy_lead_or_longest (c : Component) (cs : List Component) :
    ∃ m lead most, merge? (c :: cs) = some m ∧ (c :: cs).argmax standing = some lead ∧
      (c :: cs).argmax (·.props.length) = some most ∧
      m.GoesBy (if Anticipated (c :: cs) lead then most else lead) := by
  obtain ⟨most, h⟩ := (Merged.singleton c).foldl cs
  obtain ⟨lead, hl⟩ := Option.ne_none_iff_exists'.mp
    (mt List.argmax_eq_none.mp (List.cons_ne_nil c cs) : (c :: cs).argmax standing ≠ none)
  refine ⟨_, lead, most, rfl, hl, h.longest, ?_⟩
  have hgo := h.goesBy
  split
  next ha => rwa [List.singleton_append, origin_of_anticipated hl h.longest ha] at hgo
  next ha => rwa [List.singleton_append, origin_of_not_anticipated hl h.longest ha] at hgo

/-- The second of these three records has no props, but its definition path reaches the merged record
before the third one comes with a path of its own. -/
def lateDefinition : List Component :=
  [{ name := "sw-button", filePath := "a.js", line := 0, props := [{ name := "label" }] },
   { name := "sw-button", filePath := "b.js", line := 0, definitionPath := some "b/index.js" },
   { name := "sw-button", filePath := "c.js", line := 0, definitionPath := some "c/index.js",
     props := [{ name := "label" }] }]

/-- The first record that stands highest is not always the one a merge goes by. -/
theorem merge_lateDefinition_not_goesBy_lead : ¬ ∀ m ∈ merge? lateDefinition,
    ∀ lead ∈ lateDefinition.argmax standing, m.GoesBy lead := by
  decide

end ProjectIndex.Component
