import Mathlib.Data.List.Chain
import ProjectIndex.Watch.Pipeline

/-!
The work that is still to be done on a path. Jobs stand in front, then the batch, then the changes
that nobody has looked at. Gathering changes into batches and turning batches into jobs never loses
the last piece of work on a path, nor changes what that piece is.
-/
namespace ProjectIndex

/-- What a piece of work needs a path to name, so that afterwards the path is recorded as it should
be. -/
inductive Need where
  | anything
  | file
  | noFile
deriving DecidableEq

def Need.MetBy (holdsFile : Prop) : Need → Prop
  | .anything => True
  | .file => holdsFile
  | .noFile => ¬ holdsFile

def ChangeKind.need : ChangeKind → Need
  | .created => .file
  | .modified => .file
  | .deleted => .noFile

def Job.need? (p : Path) : Job → Option Need
  | .indexAll _ => some .anything
  | .index ps => if p ∈ ps then some .file else none
  | .remove ps => if p ∈ ps then some .noFile else none

def kindsAt (p : Path) (cs : List FileChange) : List ChangeKind :=
  cs.filterMap fun c => if c.path = p then some c.kind else none

theorem kindsAt_append (p : Path) (cs ds : List FileChange) :
    kindsAt p (cs ++ ds) = kindsAt p cs ++ kindsAt p ds := List.filterMap_append

theorem kindsAt_cons (p : Path) (c : FileChange) (cs : List FileChange) :
    kindsAt p (c :: cs) = if c.path = p then c.kind :: kindsAt p cs else kindsAt p cs := by
  unfold kindsAt
  rw [List.filterMap_cons]
  by_cases hc : c.path = p
  · simp only [if_pos hc]
  · simp only [if_neg hc]

theorem mem_kindsAt {p : Path} {k : ChangeKind} {cs : List FileChange} :
    k ∈ kindsAt p cs ↔ ⟨p, k⟩ ∈ cs := by
  induction cs with
  | nil => simp [kindsAt]
  | cons c cs ih =>
    obtain ⟨q, j⟩ := c
    rw [kindsAt_cons, List.mem_cons, FileChange.mk.injEq]
    by_cases hqp : q = p
    · rw [if_pos hqp, List.mem_cons, ih]
      simp [hqp]
    · rw [if_neg hqp, ih]
      simp [Ne.symm hqp]

def Sensible (kinds : List ChangeKind) : Prop :=
  kinds.IsChain fun earlier later => ¬ (earlier = .deleted ∧ later = .modified)

namespace ChangeBatch

def Tidy (b : ChangeBatch) : Prop := ∀ p, (kindsAt p b.changes).length ≤ 1

theorem replace_eq {earlier later : ChangeKind} (h : ¬ (earlier = .deleted ∧ later = .modified)) :
    replace earlier later = later := by
  cases earlier <;> cases later <;> first | rfl | exact absurd ⟨rfl, rfl⟩ h

/-- A change is added to that of its path. Other spellings of the path must not be in the batch. -/
theorem kindsAt_addTo (c : FileChange) (ds : List FileChange)
    (hsame : ∀ d ∈ ds, Path.same d.path c.path = true → d.path = c.path) (p : Path) :
    kindsAt p (addTo c ds) =
      if c.path = p then
        match kindsAt p ds with
        | [] => [c.kind]
        | k :: ks => replace k c.kind :: ks
      else kindsAt p ds := by
  induction ds with
  | nil =>
    rw [addTo, kindsAt_cons]
    rfl
  | cons d ds ih =>
    obtain ⟨hd, hds⟩ := List.forall_mem_cons.1 hsame
    rw [addTo]
    by_cases hpath : Path.same d.path c.path = true
    · rw [if_pos hpath, kindsAt_cons, kindsAt_cons]
      dsimp only
      rw [hd hpath]
      split <;> rfl
    · have hne : d.path ≠ c.path := fun heq => hpath (heq ▸ beq_self_eq_true d.path.components)
      rw [if_neg hpath, kindsAt_cons, kindsAt_cons, ih hds]
      by_cases hcp : c.path = p
      · have hdp : d.path ≠ p := hcp ▸ hne
        simp only [if_pos hcp, if_neg hdp]
      · simp only [if_neg hcp]

theorem path_of_mem_addTo {c e : FileChange} {ds : List FileChange} (h : e ∈ addTo c ds) :
    e.path = c.path ∨ ∃ d ∈ ds, d.path = e.path := by
  induction ds with
  | nil => exact .inl (List.mem_singleton.1 h ▸ rfl)
  | cons d ds ih =>
    rw [addTo] at h
    split at h
    · rcases List.mem_cons.1 h with rfl | h
      · exact .inr ⟨d, List.mem_cons_self .., rfl⟩
      · exact .inr ⟨e, List.mem_cons_of_mem _ h, rfl⟩
    · rcases List.mem_cons.1 h with rfl | h
      · exact .inr ⟨_, List.mem_cons_self .., rfl⟩
      · exact (ih h).imp_right fun ⟨d, hd, hpath⟩ => ⟨d, List.mem_cons_of_mem _ hd, hpath⟩

theorem mem_toRemove {b : ChangeBatch} {p : Path} :
    p ∈ b.toRemove ↔ .deleted ∈ kindsAt p b.changes := by
  rw [mem_kindsAt, toRemove, List.mem_map]
  constructor
  · rintro ⟨⟨q, k⟩, hmem, rfl⟩
    obtain ⟨hc, hk⟩ := List.mem_filter.1 hmem
    have hdeleted : k = .deleted := beq_iff_eq.1 hk
    exact hdeleted ▸ hc
  · exact fun hc => ⟨_, List.mem_filter.2 ⟨hc, rfl⟩, rfl⟩

theorem mem_toIndex {b : ChangeBatch} {p : Path} :
    p ∈ b.toIndex ↔ ∃ k ∈ kindsAt p b.changes, k ≠ .deleted := by
  rw [toIndex, List.mem_map]
  constructor
  · rintro ⟨⟨q, k⟩, hmem, rfl⟩
    obtain ⟨hc, hk⟩ := List.mem_filter.1 hmem
    exact ⟨k, mem_kindsAt.2 hc, by simpa using hk⟩
  · rintro ⟨k, hk, hne⟩
    exact ⟨⟨p, k⟩, List.mem_filter.2 ⟨mem_kindsAt.1 hk, by simpa using hne⟩, rfl⟩

theorem mem_changes_of_mem_jobs {b : ChangeBatch} {p : Path} (h : p ∈ b.toRemove ++ b.toIndex) :
    ∃ k, ⟨p, k⟩ ∈ b.changes := by
  rcases List.mem_append.1 h with h | h
  · exact ⟨_, mem_kindsAt.1 (mem_toRemove.1 h)⟩
  · obtain ⟨k, hk, _⟩ := mem_toIndex.1 h
    exact ⟨k, mem_kindsAt.1 hk⟩

theorem filterMap_jobsOf {b : ChangeBatch} (h : b.Tidy) (p : Path) :
    (Pipeline.jobsOf b).filterMap (Job.need? p) =
      (kindsAt p b.changes).map ChangeKind.need := by
  have hjob : ∀ (job : List Path → Job) (need : Need) (ps : List Path),
      (∀ ps, (job ps).need? p = if p ∈ ps then some need else none) →
      (if ps.isEmpty then [] else [job ps]).filterMap (Job.need? p) =
        if p ∈ ps then [need] else [] := by
    intro job need ps hneed
    cases ps with
    | nil => rfl
    | cons q ps =>
      simp only [List.isEmpty_cons, Bool.false_eq_true, if_false, List.filterMap_cons, hneed]
      split <;> simp_all
  rw [Pipeline.jobsOf, List.filterMap_append, hjob .remove .noFile _ fun _ => rfl,
    hjob .index .file _ fun _ => rfl]
  simp only [mem_toRemove, mem_toIndex]
  rcases hkinds : kindsAt p b.changes with _ | ⟨k, _ | ⟨j, ks⟩⟩
  · simp
  · cases k <;> simp [ChangeKind.need]
  · have hlength := h p
    rw [hkinds] at hlength
    simp at hlength

end ChangeBatch

namespace Pipeline

variable {σ : Type}

def trail (w : Pipeline σ) (p : Path) : List ChangeKind :=
  kindsAt p (w.batch.changes ++ w.incoming)

/-- What the work still to be done needs of a path, in the order it will be done. -/
def needs (w : Pipeline σ) (p : Path) : List Need :=
  w.jobs.filterMap (Job.need? p) ++ (w.trail p).map ChangeKind.need

theorem trail_report (w : Pipeline σ) (c : FileChange) (p : Path) :
    (w.report [c]).trail p = w.trail p ++ if c.path = p then [c.kind] else [] := by
  change kindsAt p (w.batch.changes ++ (w.incoming ++ [c])) = _
  rw [← List.append_assoc, kindsAt_append, kindsAt_cons]
  rfl

theorem needs_report (w : Pipeline σ) (c : FileChange) (p : Path) :
    (w.report [c]).needs p = w.needs p ++ if c.path = p then [c.kind.need] else [] := by
  rw [needs, trail_report, List.map_append, ← List.append_assoc]
  congr 1
  split <;> rfl

/-- No path that waits in the pipeline has a second spelling there. -/
def OneSpelling (w : Pipeline σ) : Prop :=
  ∀ c ∈ w.batch.changes ++ w.incoming, ∀ d ∈ w.batch.changes ++ w.incoming,
    Path.same d.path c.path = true → d.path = c.path

theorem OneSpelling.kindsAt_addTo {w : Pipeline σ} (h : w.OneSpelling) {c : FileChange}
    {cs : List FileChange} (hincoming : w.incoming = c :: cs) (p : Path) :
    kindsAt p (ChangeBatch.addTo c w.batch.changes) =
      if c.path = p then
        match kindsAt p w.batch.changes with
        | [] => [c.kind]
        | k :: ks => ChangeBatch.replace k c.kind :: ks
      else kindsAt p w.batch.changes := by
  refine ChangeBatch.kindsAt_addTo c w.batch.changes (fun d hd => ?_) p
  exact h c (by rw [hincoming]; simp) d (List.mem_append_left _ hd)

/-- Receiving a change may hide an older one of the same path behind it. -/
theorem trail_receive {w : Pipeline σ} (htidy : w.batch.Tidy) (hspelling : w.OneSpelling)
    {p : Path} (hsensible : Sensible (w.trail p)) :
    w.receive.trail p = w.trail p ∨
      ∃ k, w.trail p = k :: w.receive.trail p ∧ w.receive.trail p ≠ [] := by
  rcases hincoming : w.incoming with _ | ⟨c, cs⟩
  · rw [receive, hincoming]
    exact .inl rfl
  · have hafter : w.receive.trail p =
        kindsAt p (ChangeBatch.addTo c w.batch.changes) ++ kindsAt p cs := by
      rw [receive, hincoming]
      exact kindsAt_append ..
    have hbefore : w.trail p = kindsAt p w.batch.changes ++ kindsAt p (c :: cs) := by
      rw [trail, hincoming, kindsAt_append]
    rw [hafter, hspelling.kindsAt_addTo hincoming]
    rw [hbefore, kindsAt_cons] at hsensible ⊢
    by_cases hcp : c.path = p
    · simp only [if_pos hcp] at hsensible ⊢
      rcases hkinds : kindsAt p w.batch.changes with _ | ⟨k, _ | ⟨j, ks⟩⟩
      · exact .inl rfl
      · rw [hkinds] at hsensible
        -- The kinds combine to the later one, so the earlier one is what gets lost.
        have hfirst := (List.isChain_cons_cons.1 hsensible).1
        exact .inr ⟨k, by simp [ChangeBatch.replace_eq hfirst], by simp⟩
      · have hlength := htidy p
        rw [hkinds] at hlength
        simp at hlength
    · rw [if_neg hcp, if_neg hcp]
      exact .inl rfl

theorem tidy_receive {w : Pipeline σ} (htidy : w.batch.Tidy) (hspelling : w.OneSpelling) :
    w.receive.batch.Tidy := by
  intro p
  rcases hincoming : w.incoming with _ | ⟨c, cs⟩
  · rw [receive, hincoming]
    exact htidy p
  · have hafter : w.receive.batch.changes = ChangeBatch.addTo c w.batch.changes := by
      rw [receive, hincoming]
      rfl
    have hlength := htidy p
    rw [hafter, hspelling.kindsAt_addTo hincoming]
    split
    · split
      · exact Nat.le_refl 1
      · next hkinds =>
        rw [hkinds] at hlength
        exact hlength
    · exact hlength

theorem sensible_receive {w : Pipeline σ} (htidy : w.batch.Tidy) (hspelling : w.OneSpelling)
    {p : Path} (hsensible : Sensible (w.trail p)) : Sensible (w.receive.trail p) := by
  rcases trail_receive htidy hspelling hsensible with htrail | ⟨k, htrail, _⟩
  · exact htrail ▸ hsensible
  · rw [htrail] at hsensible
    exact hsensible.tail

theorem paths_receive (w : Pipeline σ) :
    ∀ c ∈ w.receive.batch.changes ++ w.receive.incoming,
      ∃ d ∈ w.batch.changes ++ w.incoming, d.path = c.path := by
  unfold receive
  split
  · exact fun c hc => ⟨c, hc, rfl⟩
  · next c cs hincoming =>
    rw [hincoming]
    intro e he
    rcases List.mem_append.1 he with he | he
    · rcases ChangeBatch.path_of_mem_addTo he with hpath | ⟨d, hd, hpath⟩
      · exact ⟨c, by simp, hpath.symm⟩
      · exact ⟨d, List.mem_append_left _ hd, hpath⟩
    · exact ⟨e, by simp [he], rfl⟩

theorem jobs_receive (w : Pipeline σ) :
    w.receive.jobs = w.jobs ∧ w.receive.scanner = w.scanner := by
  unfold receive
  split <;> exact ⟨rfl, rfl⟩

theorem getLast?_needs_receive {w : Pipeline σ} (htidy : w.batch.Tidy)
    (hspelling : w.OneSpelling) {p : Path} (hsensible : Sensible (w.trail p)) :
    (w.receive.needs p).getLast? = (w.needs p).getLast? := by
  unfold needs
  rw [(jobs_receive w).1]
  rcases trail_receive htidy hspelling hsensible with htrail | ⟨k, htrail, hne⟩
  · rw [htrail]
  · obtain ⟨last, hlast⟩ := Option.isSome_iff_exists.1 (List.getLast?_isSome.2 hne)
    rw [htrail, List.map_cons, List.getLast?_append, List.getLast?_append, List.getLast?_cons,
      List.getLast?_map, hlast]
    rfl

theorem needs_flush {w : Pipeline σ} (htidy : w.batch.Tidy) (p : Path) :
    w.flush.needs p = w.needs p := by
  have htrail : w.flush.trail p = kindsAt p w.incoming := rfl
  change (w.jobs ++ jobsOf w.batch).filterMap (Job.need? p) ++ _ = _
  rw [htrail, needs, trail, kindsAt_append, List.filterMap_append,
    ChangeBatch.filterMap_jobsOf htidy, List.map_append, List.append_assoc]

theorem needs_work {w : Pipeline σ} {j : Job} {js : List Job} (h : w.jobs = j :: js)
    (s : Scanner σ) (p : Path) :
    w.needs p = (j.need? p).toList ++ ({ w with jobs := js, scanner := s } : Pipeline σ).needs p := by
  have htrail : ({ w with jobs := js, scanner := s } : Pipeline σ).trail p = w.trail p := rfl
  rw [needs, needs, htrail, h, List.filterMap_cons]
  cases j.need? p <;> rfl

end Pipeline
end ProjectIndex
