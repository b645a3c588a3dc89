import Mathlib.Data.List.Forall2
import ProjectIndex.Proofs.Watch.Coalescing

/-!
What a batch hands over. A take answers for the changes that were added since the one before: each of
their places is handed over once, in the spelling and in the order of its first change, to be removed
if a deletion stands that no later creation undoes, and to be indexed otherwise. A take leaves nothing
behind, so over any sequence of additions and takes each change is answered for by exactly one take, or
still waits for the next.
-/
namespace ProjectIndex.ChangeBatch

def firstChange (cs : List FileChange) (p : Path) : Nat := cs.findIdx fun c => Path.same c.path p

/-- Whether the paths handed over, those to index and those to remove, are what some changes come
to. -/
structure Coalesces (cs : List FileChange) (handed : List Path × List Path) : Prop where
  once : ∀ p : Path, ((handed.1 ++ handed.2).map Path.components).count p.components =
    if cs.any fun c => Path.same c.path p then 1 else 0
  spelled : ∀ p ∈ handed.1 ++ handed.2, cs[firstChange cs p]?.map FileChange.path = some p
  indexOrder : handed.1.Pairwise fun p q => firstChange cs p < firstChange cs q
  removeOrder : handed.2.Pairwise fun p q => firstChange cs p < firstChange cs q
  removed : ∀ p : Path,
    (∃ q ∈ handed.2, Path.same q p = true) ↔ StaysDeleted (kindsIn p cs)

inductive Step where
  | add (c : FileChange)
  | take

def Step.added? : Step → Option FileChange
  | add c => some c
  | take => none

def run : ChangeBatch → List Step → List (List Path × List Path) × ChangeBatch
  | b, [] => ([], b)
  | b, .add c :: steps => run (b.add c) steps
  | b, .take :: steps =>
    let r := run b.take.2 steps
    (b.take.1 :: r.1, r.2)

/-- The changes added before each take since the one before it, and those behind the last take. Some
may have been gathered before. -/
def spans : List FileChange → List Step → List (List FileChange) × List FileChange
  | gathered, [] => ([], gathered)
  | gathered, .add c :: steps => spans (gathered ++ [c]) steps
  | gathered, .take :: steps =>
    let r := spans [] steps
    (gathered :: r.1, r.2)

section Paths

variable {p : Path} {c : FileChange} {cs ds : List FileChange}

theorem map_path_addTo (c : FileChange) (ds : List FileChange) :
    (addTo c ds).map FileChange.path =
      ds.map FileChange.path ++ if ds.any fun d => Path.same d.path c.path then [] else [c.path] := by
  induction ds with
  | nil => rfl
  | cons d ds ih =>
    rw [addTo, List.any_cons]
    cases hdc : Path.same d.path c.path with
    | true => exact (List.append_nil _).symm
    | false => exact congrArg (d.path :: ·) ih

def paths (cs : List FileChange) : List Path := (ofChanges cs).changes.map FileChange.path

theorem ofChanges_concat (cs : List FileChange) (c : FileChange) :
    ofChanges (cs ++ [c]) = (ofChanges cs).add c := List.foldl_concat ..

theorem paths_concat (cs : List FileChange) (c : FileChange) :
    paths (cs ++ [c]) =
      paths cs ++ if (paths cs).any fun q => Path.same q c.path then [] else [c.path] := by
  rw [paths, ofChanges_concat, paths, List.any_map]
  exact map_path_addTo c (ofChanges cs).changes

theorem any_paths (cs : List FileChange) (p : Path) :
    ((paths cs).any fun q => Path.same q p) = cs.any fun c => Path.same c.path p := by
  induction cs using List.reverseRecOn with
  | nil => rfl
  | append_singleton cs c ih =>
    have hone : ([c.path].any fun q => Path.same q p) = Path.same c.path p := Bool.or_false _
    have hlast : ([c].any fun d => Path.same d.path p) = Path.same c.path p := Bool.or_false _
    rw [paths_concat, List.any_append, List.any_append, ih, hlast]
    cases hcp : Path.same c.path p with
    | true =>
      -- the batch has a path for the place of the change if and only if it has one for `p`
      have hplace : (fun q => Path.same q c.path) = fun q => Path.same q p := by
        unfold Path.same
        rw [Path.same_iff.1 hcp]
      rw [hplace, ih]
      cases cs.any fun c => Path.same c.path p with
      | true => rfl
      | false => exact hone.trans hcp
    | false =>
      split
      · rfl
      · rw [hone, hcp]

theorem firstChange_concat (h : firstChange cs p < cs.length) (c : FileChange) :
    firstChange (cs ++ [c]) p = firstChange cs p := by
  unfold firstChange at h ⊢
  rw [List.findIdx_append, if_pos h]

theorem firstChange_concat_self (h : (cs.any fun d => Path.same d.path c.path) = false) :
    firstChange (cs ++ [c]) c.path = cs.length := by
  have hnone : ¬ cs.findIdx (fun d => Path.same d.path c.path) < cs.length := by
    rw [List.findIdx_lt_length, ← List.any_eq_true, h]
    exact Bool.false_ne_true
  rw [firstChange, List.findIdx_append, if_neg hnone, List.findIdx_cons, Path.same, beq_self_eq_true]
  exact Nat.zero_add _

/-- The paths of a batch are those of the first changes of their places, and in their order. -/
theorem paths_spec (cs : List FileChange) :
    (∀ p ∈ paths cs, cs[firstChange cs p]?.map FileChange.path = some p) ∧
      (paths cs).Pairwise fun p q => firstChange cs p < firstChange cs q := by
  induction cs using List.reverseRecOn with
  | nil => exact ⟨nofun, .nil⟩
  | append_singleton cs c ih =>
    obtain ⟨hspelled, horder⟩ := ih
    have hlt : ∀ p ∈ paths cs, firstChange cs p < cs.length := by
      intro p hp
      obtain ⟨d, hd, _⟩ := Option.map_eq_some_iff.1 (hspelled p hp)
      exact (List.getElem?_eq_some_iff.1 hd).1
    -- A change at the end comes behind every first change there was.
    have hold : ∀ p ∈ paths cs,
        (cs ++ [c])[firstChange (cs ++ [c]) p]?.map FileChange.path = some p := by
      intro p hp
      rw [firstChange_concat (hlt p hp), List.getElem?_append_left (hlt p hp)]
      exact hspelled p hp
    have hkept : (paths cs).Pairwise fun p q =>
        firstChange (cs ++ [c]) p < firstChange (cs ++ [c]) q :=
      horder.imp_of_mem fun hp hq h => by
        rw [firstChange_concat (hlt _ hp), firstChange_concat (hlt _ hq)]
        exact h
    rw [paths_concat, any_paths]
    cases hnew : cs.any fun d => Path.same d.path c.path with
    | true =>
      rw [if_pos rfl, List.append_nil]
      exact ⟨hold, hkept⟩
    | false =>
      have hself := firstChange_concat_self hnew
      rw [if_neg Bool.false_ne_true]
      refine ⟨fun p hp => ?_, List.pairwise_append.2 ⟨hkept, List.pairwise_singleton .., ?_⟩⟩
      · rcases List.mem_append.1 hp with hp | hp
        · exact hold p hp
        · rw [List.mem_singleton.1 hp, hself, List.getElem?_append_right (Nat.le_refl _), Nat.sub_self]
          rfl
      · intro p hp q hq
        rw [List.mem_singleton.1 hq, hself, firstChange_concat (hlt p hp)]
        exact hlt p hp

theorem count_components_paths (cs : List FileChange) (p : Path) :
    ((paths cs).map Path.components).count p.components =
      if cs.any fun c => Path.same c.path p then 1 else 0 := by
  have hnodup : ((paths cs).map Path.components).Nodup := by
    refine List.pairwise_map.2 ((paths_spec cs).2.imp fun {q r} hlt heq => ?_)
    have hplace : firstChange cs q = firstChange cs r := by
      unfold firstChange Path.same
      rw [heq]
    exact Nat.ne_of_lt hlt hplace
  have hmem : p.components ∈ (paths cs).map Path.components ↔
      (cs.any fun c => Path.same c.path p) = true := by
    rw [← any_paths, List.any_eq_true, List.mem_map]
    exact exists_congr fun q => and_congr_right fun _ => Path.same_iff.symm
  rw [hnodup.count]
  exact if_congr hmem rfl rfl

end Paths

section Takes

variable {cs : List FileChange}

theorem take_perm (b : ChangeBatch) :
    (b.take.1.1 ++ b.take.1.2).Perm (b.changes.map FileChange.path) := by
  have hsplit := List.filter_append_perm (fun c : FileChange => c.kind != .deleted) b.changes
  simp only [bne, Bool.not_not] at hsplit
  rw [take, toIndex, toRemove, ← List.map_append]
  exact hsplit.map FileChange.path

theorem coalesces_take (cs : List FileChange) : Coalesces cs (ofChanges cs).take.1 := by
  obtain ⟨hspelled, horder⟩ := paths_spec cs
  have hperm := take_perm (ofChanges cs)
  refine ⟨fun p => ?_, fun p hp => hspelled p (hperm.mem_iff.1 hp), ?_, ?_, fun p => ?_⟩
  · rw [(hperm.map Path.components).count_eq]
    exact count_components_paths cs p
  · exact horder.sublist (List.filter_sublist.map FileChange.path)
  · exact horder.sublist (List.filter_sublist.map FileChange.path)
  · rw [← foldl_next_eq_deleted, ← kindIn?_ofChanges]
    exact exists_mem_toRemove (apart_ofChanges cs)

theorem run_ofChanges (gathered : List FileChange) (steps : List Step) :
    let r := run (ofChanges gathered) steps
    let w := spans gathered steps
    List.Forall₂ Coalesces w.1 r.1 ∧ r.2 = ofChanges w.2 := by
  induction steps generalizing gathered with
  | nil => exact ⟨.nil, rfl⟩
  | cons step steps ih =>
    cases step with
    | add c =>
      rw [run, spans, ← ofChanges_concat]
      exact ih (gathered ++ [c])
    | take => exact ⟨.cons (coalesces_take gathered) (ih []).1, (ih []).2⟩

theorem flatten_spans (gathered : List FileChange) (steps : List Step) :
    (spans gathered steps).1.flatten ++ (spans gathered steps).2 =
      gathered ++ steps.filterMap Step.added? := by
  induction steps generalizing gathered with
  | nil => exact (List.append_nil gathered).symm
  | cons step steps ih =>
    cases step with
    | add c =>
      rw [spans, ih, List.append_assoc]
      rfl
    | take =>
      rw [spans, List.flatten_cons, List.append_assoc, ih []]
      rfl

/-- Over any sequence of additions and takes each change is in the span of one take, or behind the last
take. What a take hands over is what the changes of its span come to, and so would be what is left if
it were taken; behind that the batch is empty. -/
theorem changes_handed_over_once (steps : List Step) :
    let r := run .empty steps
    let w := spans [] steps
    w.1.flatten ++ w.2 = steps.filterMap Step.added? ∧ List.Forall₂ Coalesces w.1 r.1 ∧
      Coalesces w.2 r.2.take.1 ∧ r.2.take.2.isEmpty = true := by
  intro r w
  obtain ⟨hhanded, hleft⟩ := run_ofChanges [] steps
  refine ⟨flatten_spans [] steps, hhanded, ?_, rfl⟩
  change Coalesces w.2 (run (ofChanges []) steps).2.take.1
  rw [hleft]
  exact coalesces_take w.2

/-- A modification does not undo a deletion, and a second take has nothing to hand over. -/
example :
    let b : Path := .ofString "a//b"
    let c : Path := .ofString "c"
    (run .empty [.add ⟨b, .created⟩, .add ⟨c, .deleted⟩, .add ⟨.ofString "a/b", .deleted⟩,
      .add ⟨.ofString "a/./b", .modified⟩, .add ⟨c, .created⟩, .take, .take]).1 =
        [([c], [b]), ([], [])] := by
  decide +kernel

end Takes
end ProjectIndex.ChangeBatch
