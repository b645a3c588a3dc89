import ProjectIndex.Proofs.Domain.Components.Merge

/-!
A merge loses nothing. A field of the merged record is empty only if it is empty in every record that
was merged, and otherwise it is that of one of them. So the merged record has nothing left to take
from any of them, nor do they overtake it, and to merge it with them again gives it back.
-/
namespace ProjectIndex

attribute [ext] Component

namespace Component

/-! ### One field -/

section Field

variable {β : Type} {empty : β} {field : Component → β} {c d m n : Component} {cs : List Component}

/-- A field that a record takes over from another one where its own is empty. -/
structure TakesOver (empty : β) (field : Component → β) : Prop where
  taken (c d : Component) : field c = empty → field (c.backfill d) = field d
  kept (c d : Component) : field c ≠ empty → field (c.backfill d) = field c

theorem takesOver_or {γ : Type} {field : Component → Option γ}
    (h : ∀ c d, field (c.backfill d) = (field c).or (field d)) : TakesOver none field where
  taken c d hempty := by rw [h, hempty, Option.none_or]
  kept c d hsome := by
    obtain ⟨a, ha⟩ := Option.ne_none_iff_exists'.mp hsome
    rw [h, ha, Option.some_or]

theorem takesOver_orElseList {γ : Type} {field : Component → List γ}
    (h : ∀ c d, field (c.backfill d) = orElseList (field c) (field d)) : TakesOver [] field where
  taken c d hempty := by rw [h, hempty]; rfl
  kept c d hsome := by rw [h, orElseList, if_neg (by simpa using hsome)]

/-- Whether a field is empty exactly where it is in all the records of a list, and else is that of one
of them. -/
structure Gathered (cs : List Component) (m : Component) (empty : β) (field : Component → β) :
    Prop where
  empty_iff : field m = empty ↔ ∀ r ∈ cs, field r = empty
  origin : field m ≠ empty → ∃ r ∈ cs, field m = field r

theorem gathered_singleton (c : Component) : Gathered [c] c empty field where
  empty_iff := by simp
  origin _ := ⟨c, List.mem_singleton_self c, rfl⟩

theorem mergePair_eq_or (b n : Component) :
    mergePair b n = backfill n b ∨ mergePair b n = backfill b n := by
  by_cases h : Overtakes b n
  · exact .inl (mergePair_of_overtakes h)
  · exact .inr (mergePair_of_not_overtakes h)

theorem TakesOver.backfill (h : TakesOver empty field) (c d : Component) :
    (field (c.backfill d) = empty ↔ field c = empty ∧ field d = empty) ∧
      (field (c.backfill d) = field c ∨ field (c.backfill d) = field d) := by
  by_cases hc : field c = empty
  · rw [h.taken c d hc]
    exact ⟨(and_iff_right hc).symm, .inr rfl⟩
  · rw [h.kept c d hc]
    exact ⟨⟨fun he => absurd he hc, fun he => absurd he.1 hc⟩, .inl rfl⟩

theorem TakesOver.mergePair (h : TakesOver empty field) (b n : Component) :
    (field (mergePair b n) = empty ↔ field b = empty ∧ field n = empty) ∧
      (field (mergePair b n) = field b ∨ field (mergePair b n) = field n) := by
  rcases mergePair_eq_or b n with heq | heq
  · rw [heq, and_comm (a := field b = empty), or_comm]
    exact h.backfill n b
  · rw [heq]
    exact h.backfill b n

theorem Gathered.concat (h : TakesOver empty field) (hg : Gathered cs m empty field)
    (n : Component) : Gathered (cs ++ [n]) (mergePair m n) empty field := by
  obtain ⟨hempty, hchoice⟩ := h.mergePair m n
  refine ⟨?_, fun hne => ?_⟩
  · rw [hempty, hg.empty_iff, List.forall_mem_append, List.forall_mem_singleton]
  · rcases hchoice with heq | heq
    · obtain ⟨r, hr, hfield⟩ := hg.origin (heq ▸ hne)
      exact ⟨r, List.mem_append_left _ hr, heq.trans hfield⟩
    · exact ⟨n, List.mem_append_right _ (List.mem_singleton_self n), heq⟩

theorem Gathered.foldl (h : TakesOver empty field) (hg : Gathered cs m empty field)
    (ns : List Component) : Gathered (cs ++ ns) (ns.foldl Component.mergePair m) empty field := by
  induction ns generalizing cs m with
  | nil => simpa using hg
  | cons n ns ih => simpa using ih (hg.concat h n)

theorem gathered_merge (h : TakesOver empty field) (c : Component) (cs : List Component) :
    Gathered (c :: cs) (cs.foldl Component.mergePair c) empty field :=
  (gathered_singleton c).foldl h cs

theorem Gathered.backfill_eq (h : TakesOver empty field) (hg : Gathered cs m empty field)
    (hn : n ∈ cs) : field (m.backfill n) = field m := by
  by_cases hm : field m = empty
  · rw [h.taken m n hm, hm]
    exact hg.empty_iff.mp hm n hn
  · exact h.kept m n hm

end Field

/-! ### The whole record -/

structure Gathers (cs : List Component) (m : Component) : Prop where
  parentName : Gathered cs m none (·.parentName)
  importPath : Gathered cs m none (·.importPath)
  definitionPath : Gathered cs m none (·.definitionPath)
  props : Gathered cs m [] (·.props)
  emits : Gathered cs m [] (·.emits)
  methods : Gathered cs m [] (·.methods)
  computed : Gathered cs m [] (·.computed)
  slots : Gathered cs m [] (·.slots)
  blocks : Gathered cs m [] (·.blocks)
  templatePath : Gathered cs m none (·.templatePath)

section Record

variable {m n : Component} {cs : List Component}

theorem gathers_merge (c : Component) (cs : List Component) :
    Gathers (c :: cs) (cs.foldl mergePair c) where
  parentName := gathered_merge (takesOver_or fun _ _ => rfl) c cs
  importPath := gathered_merge (takesOver_or fun _ _ => rfl) c cs
  definitionPath := gathered_merge (takesOver_or fun _ _ => rfl) c cs
  props := gathered_merge (takesOver_orElseList fun _ _ => rfl) c cs
  emits := gathered_merge (takesOver_orElseList fun _ _ => rfl) c cs
  methods := gathered_merge (takesOver_orElseList fun _ _ => rfl) c cs
  computed := gathered_merge (takesOver_orElseList fun _ _ => rfl) c cs
  slots := gathered_merge (takesOver_orElseList fun _ _ => rfl) c cs
  blocks := gathered_merge (takesOver_orElseList fun _ _ => rfl) c cs
  templatePath := gathered_merge (takesOver_or fun _ _ => rfl) c cs

theorem Gathers.backfill_eq (h : Gathers cs m) (hn : n ∈ cs) : m.backfill n = m :=
  Component.ext rfl (h.parentName.backfill_eq (takesOver_or fun _ _ => rfl) hn)
    (h.importPath.backfill_eq (takesOver_or fun _ _ => rfl) hn) rfl
    (h.definitionPath.backfill_eq (takesOver_or fun _ _ => rfl) hn) rfl
    (h.props.backfill_eq (takesOver_orElseList fun _ _ => rfl) hn)
    (h.emits.backfill_eq (takesOver_orElseList fun _ _ => rfl) hn)
    (h.methods.backfill_eq (takesOver_orElseList fun _ _ => rfl) hn)
    (h.computed.backfill_eq (takesOver_orElseList fun _ _ => rfl) hn)
    (h.slots.backfill_eq (takesOver_orElseList fun _ _ => rfl) hn)
    (h.blocks.backfill_eq (takesOver_orElseList fun _ _ => rfl) hn)
    (h.templatePath.backfill_eq (takesOver_or fun _ _ => rfl) hn)

theorem Gathers.mergePair_eq (h : Gathers cs m) (hn : n ∈ cs)
    (hle : n.props.length ≤ m.props.length) : mergePair m n = m := by
  have hnot : ¬ Overtakes m n := by
    rintro (hlt | ⟨-, hsome, hnone⟩)
    · omega
    · have hempty := h.definitionPath.empty_iff.mp (Option.isNone_iff_eq_none.mp hnone) n hn
      simp [hempty] at hsome
  rw [mergePair_of_not_overtakes hnot, h.backfill_eq hn]

theorem origin_mem {most : Component} (h : longest? cs = some most) :
    origin (opener? cs) most ∈ cs := by
  have hmost : most ∈ cs := List.argmax_mem h
  unfold origin
  split
  · next f hf =>
    split
    · exact mem_of_opener? hf
    · exact hmost
  · exact hmost

/-- A merge loses nothing, takes who the record is from one record with the most props, and gives the
merged record back when it is merged with the others again, first or last. -/
theorem merge_gathers_and_absorbs (c : Component) (cs : List Component) :
    ∃ m, merge? (c :: cs) = some m ∧
      (∀ r ∈ c :: cs, r.props.length ≤ m.props.length) ∧
      (∃ r ∈ c :: cs, r.props.length = m.props.length ∧
        m.name = r.name ∧ m.filePath = r.filePath ∧ m.line = r.line) ∧
      Gathers (c :: cs) m ∧
      merge? (m :: c :: cs) = some m ∧ merge? (c :: cs ++ [m]) = some m := by
  obtain ⟨most, hmerged⟩ := (Merged.singleton c).foldl cs
  rw [List.singleton_append] at hmerged
  have hgathers := gathers_merge c cs
  have hself := gathers_merge (cs.foldl mergePair c) []
  have hmost : ∀ r ∈ c :: cs, r.props.length ≤ (cs.foldl mergePair c).props.length := fun r hr =>
    hmerged.length_props ▸ length_props_le_of_longest? hmerged.longest hr
  refine ⟨cs.foldl mergePair c, rfl, hmost, ?_, hgathers, ?_, ?_⟩
  · have hgo := hmerged.goesBy
    refine ⟨_, origin_mem hmerged.longest, ?_, hgo.name, hgo.filePath, hgo.line⟩
    rw [length_props_origin, hmerged.length_props]
  · have hkept : (c :: cs).foldl mergePair (cs.foldl mergePair c) = cs.foldl mergePair c :=
      List.foldlRecOn (motive := (· = cs.foldl mergePair c)) (c :: cs) mergePair rfl
        fun b hb r hr => hb ▸ hgathers.mergePair_eq hr (hmost r hr)
    exact congrArg some hkept
  · have hlast := hself.mergePair_eq (List.mem_singleton_self _) (Nat.le_refl _)
    rw [List.cons_append, merge?, List.foldl_append]
    exact congrArg some hlast

end Record
end Component
end ProjectIndex
