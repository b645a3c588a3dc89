import Mathlib.Data.List.Basic
import ProjectIndex.Grammar.Twig.Tree
import ProjectIndex.Proofs.Tree.Frames

/-! The parts that a statement adds to the innermost open node, or opens there. -/
namespace ProjectIndex.Twig

open TreeBuilder

def wordShapes : List Token → List Shape
  | [] => []
  | t :: ts =>
    match t.kind with
    | .identifier => .named "identifier" t.start t.stop :: wordShapes ts
    | .string => .named "string" t.start t.stop :: wordShapes ts
    | .other => wordShapes ts

def tagShapes : List Token → List Shape
  | [] => []
  | t :: ts =>
    if t.isIdentifier then .named "name" t.start t.stop :: wordShapes ts else wordShapes (t :: ts)

/-- The children that a block has from its opening: its name, and the words behind that. What stands
in the place of the name leaves no child if it is no name. -/
def openingShapes : List Token → List Shape
  | [] => []
  | t :: ts =>
    if t.isIdentifier then .named "identifier" t.start t.stop :: wordShapes ts else wordShapes ts

theorem forall_mem_wordShapes {P : Shape → Prop} (hword : ∀ kind start stop,
    kind = "identifier" ∨ kind = "string" → P (.named kind start stop)) (ts : List Token) :
    ∀ s ∈ wordShapes ts, P s := by
  induction ts with
  | nil => exact List.forall_mem_nil _
  | cons t ts ih =>
    rw [wordShapes]
    split
    · exact List.forall_mem_cons.2 ⟨hword _ _ _ (.inl rfl), ih⟩
    · exact List.forall_mem_cons.2 ⟨hword _ _ _ (.inr rfl), ih⟩
    · exact ih

theorem forall_mem_tagShapes {P : Shape → Prop} (hword : ∀ kind start stop,
    kind = "name" ∨ kind = "identifier" ∨ kind = "string" → P (.named kind start stop))
    (ts : List Token) : ∀ s ∈ tagShapes ts, P s := by
  have hwords := forall_mem_wordShapes (P := P) fun kind start stop h => hword kind start stop (.inr h)
  cases ts with
  | nil => exact List.forall_mem_nil _
  | cons t ts =>
    rw [tagShapes]
    split
    · exact List.forall_mem_cons.2 ⟨hword _ _ _ (.inl rfl), hwords ts⟩
    · exact hwords (t :: ts)

theorem forall_mem_openingShapes {P : Shape → Prop} (hword : ∀ kind start stop,
    kind = "identifier" ∨ kind = "string" → P (.named kind start stop)) (ts : List Token) :
    ∀ s ∈ openingShapes ts, P s := by
  have hwords := forall_mem_wordShapes hword
  cases ts with
  | nil => exact List.forall_mem_nil _
  | cons t ts =>
    rw [openingShapes]
    split
    · exact List.forall_mem_cons.2 ⟨hword _ _ _ (.inl rfl), hwords ts⟩
    · exact hwords ts

theorem start_of_mem_wordShapes {ts : List Token} {s : Shape} (h : s ∈ wordShapes ts) :
    ∃ t ∈ ts, s.start = t.start := by
  induction ts with
  | nil => cases h
  | cons t ts ih =>
    have hrest : s ∈ wordShapes ts → ∃ u ∈ t :: ts, s.start = u.start := fun hs => by
      obtain ⟨u, hu, hstart⟩ := ih hs
      exact ⟨u, List.mem_cons_of_mem t hu, hstart⟩
    rw [wordShapes] at h
    split at h
    · exact (List.mem_cons.1 h).elim (fun hs => ⟨t, List.mem_cons_self .., hs ▸ rfl⟩) hrest
    · exact (List.mem_cons.1 h).elim (fun hs => ⟨t, List.mem_cons_self .., hs ▸ rfl⟩) hrest
    · exact hrest h

theorem start_of_mem_openingShapes {ts : List Token} {s : Shape} (h : s ∈ openingShapes ts) :
    ∃ t ∈ ts, s.start = t.start := by
  cases ts with
  | nil => cases h
  | cons t ts =>
    have hrest : s ∈ wordShapes ts → ∃ u ∈ t :: ts, s.start = u.start := fun hs => by
      obtain ⟨u, hu, hstart⟩ := start_of_mem_wordShapes hs
      exact ⟨u, List.mem_cons_of_mem t hu, hstart⟩
    rw [openingShapes] at h
    split at h
    · exact (List.mem_cons.1 h).elim (fun hs => ⟨t, List.mem_cons_self .., hs ▸ rfl⟩) hrest
    · exact hrest h

section Stands

variable {src : Source} {b : TreeBuilder} {f : Frame} {fs : List Frame} {start stop : Nat}

theorem stands_wordShapes (ts : List Token) (h : b.Stands src (f :: fs)) :
    (addArguments b ts).Stands src (f.addAll (wordShapes ts) :: fs) := by
  induction ts generalizing b f with
  | nil =>
    rw [addArguments, wordShapes, Frame.addAll_nil]
    exact h
  | cons t ts ih =>
    rw [addArguments, wordShapes]
    cases t.kind with
    | identifier =>
      dsimp only
      rw [← Frame.addAll_add]
      exact ih (h.leaf "identifier" true t.start t.stop)
    | string =>
      dsimp only
      rw [← Frame.addAll_add]
      exact ih (h.leaf "string" true t.start t.stop)
    | other => exact ih h

theorem stands_tagShapes (tokens : List Token) (h : b.Stands src (f :: fs)) :
    (addTag b start stop tokens).Stands src
      (f.add (.node "tag" true false start stop (tagShapes tokens)) :: fs) := by
  have hopen := h.openNode "tag" true start
  rw [addTag.eq_def]
  cases tokens with
  | nil => exact hopen.close stop
  | cons t ts =>
    rw [tagShapes]
    dsimp only
    split
    · exact (stands_wordShapes ts (hopen.leaf "name" true t.start t.stop)).close stop
    · exact (stands_wordShapes (t :: ts) hopen).close stop

/-- A block stays open unless there are tokens behind the name. -/
theorem stands_openingShapes (args : List Token) (h : b.Stands src (f :: fs)) :
    (addBlock b start stop args).Stands src
      (if 1 < args.length then f.add (.node "block" true false start stop (openingShapes args)) :: fs
        else ⟨b.nodes.size, "block", true, start, openingShapes args⟩ :: f :: fs) := by
  have hopen := h.openNode "block" true start
  rw [addBlock.eq_def]
  cases args with
  | nil => exact hopen
  | cons t ts =>
    let named : Frame := ⟨b.nodes.size, "block", true, start,
      if t.isIdentifier then [.named "identifier" t.start t.stop] else []⟩
    -- What stands in the place of the name leaves a node only if it is an identifier.
    have hname : (if t.isIdentifier then
          (b.openNode "block" true start).leaf "identifier" true t.start t.stop
        else b.openNode "block" true start).Stands src (named :: f :: fs) := by
      dsimp only [named]
      split
      · exact hopen.leaf "identifier" true t.start t.stop
      · exact hopen
    have hshapes (rest : List Token) : named.addAll (wordShapes rest) =
        ⟨b.nodes.size, "block", true, start, openingShapes (t :: rest)⟩ := by
      dsimp only [named, Frame.addAll, openingShapes]
      split
      · rfl
      · rfl
    dsimp only [List.tail_cons]
    split
    · have hclosed := (stands_wordShapes ts hname).close stop
      rw [hshapes] at hclosed
      exact hclosed
    · next hfew =>
      obtain rfl : ts = [] := by
        rw [List.length_cons, Nat.lt_add_left_iff_pos] at hfew
        exact List.length_eq_zero_iff.1 (Nat.eq_zero_of_not_pos hfew)
      rw [← hshapes, wordShapes, Frame.addAll_nil]
      exact hname

end Stands
end ProjectIndex.Twig
