import Mathlib.Data.List.Induction
import ProjectIndex.Proofs.Files.Order
import ProjectIndex.Proofs.Watch.Pending

/-!
What a batch makes of the changes of a place. The changes of other places do not matter; those of the
place itself are folded into one. A deletion stands until a creation undoes it, so a batch removes a
place exactly when one of its changes is a deletion behind which it is not created. A file that is
renamed onto a place counts as a modification there: the place is indexed unless such a deletion
comes before.
-/
namespace ProjectIndex

theorem Path.same_congr {p q : Path} (h : same p q = true) (r : Path) : same p r = same q r := by
  unfold same
  rw [same_iff.1 h]

def kindsIn (p : Path) (cs : List FileChange) : List ChangeKind :=
  (cs.filter fun c => Path.same c.path p).map FileChange.kind

/-- Whether a deletion comes that no later creation undoes. -/
def StaysDeleted (kinds : List ChangeKind) : Prop :=
  ∃ earlier later, kinds = earlier ++ .deleted :: later ∧ .created ∉ later

section Kinds

variable {p : Path} {k : ChangeKind} {kinds : List ChangeKind}

theorem kindsIn_append (p : Path) (cs ds : List FileChange) :
    kindsIn p (cs ++ ds) = kindsIn p cs ++ kindsIn p ds := by
  rw [kindsIn, List.filter_append, List.map_append]
  rfl

theorem kindsIn_eq_nil {cs : List FileChange} (h : ∀ c ∈ cs, Path.same c.path p = false) :
    kindsIn p cs = [] := by
  rw [kindsIn, List.map_eq_nil_iff, List.filter_eq_nil_iff]
  exact fun c hc => by simp [h c hc]

theorem mem_kindsIn {cs : List FileChange} :
    k ∈ kindsIn p cs ↔ ∃ c ∈ cs, Path.same c.path p = true ∧ c.kind = k := by
  simp only [kindsIn, List.mem_map, List.mem_filter, and_assoc]

theorem staysDeleted_concat :
    StaysDeleted (kinds ++ [k]) ↔ k = .deleted ∨ k ≠ .created ∧ StaysDeleted kinds := by
  constructor
  · rintro ⟨earlier, later, heq, hlater⟩
    rcases List.eq_nil_or_concat later with rfl | ⟨later, last, rfl⟩
    · exact .inl (List.singleton_inj.1 (List.append_inj' heq rfl).2)
    · rw [List.concat_eq_append] at heq hlater
      rw [← List.cons_append, ← List.append_assoc] at heq
      obtain ⟨hkinds, hlast⟩ := List.append_inj' heq rfl
      obtain rfl := List.singleton_inj.1 hlast
      rw [List.mem_append, List.mem_singleton, not_or] at hlater
      exact .inr ⟨Ne.symm hlater.2, earlier, later, hkinds, hlater.1⟩
  · rintro (rfl | ⟨hk, earlier, later, rfl, hlater⟩)
    · exact ⟨kinds, [], rfl, List.not_mem_nil⟩
    · refine ⟨earlier, later ++ [k], by simp, ?_⟩
      rw [List.mem_append, List.mem_singleton, not_or]
      exact ⟨hlater, Ne.symm hk⟩

end Kinds

namespace ChangeBatch

def ofChanges (cs : List FileChange) : ChangeBatch := cs.foldl add .empty

/-- What is known of a place with one change more. -/
def next (earlier : Option ChangeKind) (later : ChangeKind) : Option ChangeKind :=
  some (earlier.elim later fun k => replace k later)

def kindIn? (p : Path) (cs : List FileChange) : Option ChangeKind :=
  (cs.find? fun c => Path.same c.path p).map FileChange.kind

def Apart (cs : List FileChange) : Prop := cs.Pairwise fun c d => Path.same c.path d.path = false

section Fold

variable {p : Path} {k : ChangeKind} {c : FileChange} {cs ds : List FileChange}

theorem kindIn?_cons (p : Path) (c : FileChange) (cs : List FileChange) :
    kindIn? p (c :: cs) = if Path.same c.path p then some c.kind else kindIn? p cs := by
  unfold kindIn?
  rw [List.find?_cons]
  cases Path.same c.path p <;> rfl

theorem kindIn?_addTo (p : Path) (c : FileChange) (ds : List FileChange) :
    kindIn? p (addTo c ds) =
      if Path.same c.path p then next (kindIn? p ds) c.kind else kindIn? p ds := by
  induction ds with
  | nil =>
    rw [addTo, kindIn?_cons]
    rfl
  | cons d ds ih =>
    rw [addTo]
    by_cases hdc : Path.same d.path c.path = true
    · rw [if_pos hdc, kindIn?_cons, kindIn?_cons]
      dsimp only
      rw [Path.same_congr hdc p]
      split <;> rfl
    · rw [if_neg hdc, kindIn?_cons, kindIn?_cons, ih]
      by_cases hcp : Path.same c.path p = true
      · -- the place of `d` is not that of `c`, so it is not `p` either
        have hdp : ¬ Path.same d.path p = true := fun hdp =>
          hdc (Path.same_iff.2 ((Path.same_iff.1 hdp).trans (Path.same_iff.1 hcp).symm))
        rw [if_pos hcp, if_neg hdp, if_pos hcp, if_neg hdp]
      · rw [if_neg hcp, if_neg hcp]

theorem Apart.addTo (h : Apart ds) (c : FileChange) : Apart (addTo c ds) := by
  induction ds with
  | nil => exact List.pairwise_singleton ..
  | cons d ds ih =>
    obtain ⟨hd, hds⟩ := List.pairwise_cons.1 h
    rw [ChangeBatch.addTo]
    split
    · exact List.pairwise_cons.2 ⟨hd, hds⟩
    · next hdc =>
      refine List.pairwise_cons.2 ⟨fun e he => ?_, ih hds⟩
      rcases path_of_mem_addTo he with hpath | ⟨d', hd', hpath⟩
      · rw [hpath]
        exact Bool.not_eq_true _ ▸ hdc
      · rw [← hpath]
        exact hd d' hd'

theorem foldl_add (b : ChangeBatch) (cs : List FileChange) (h : Apart b.changes) (p : Path) :
    Apart (cs.foldl add b).changes ∧
      kindIn? p (cs.foldl add b).changes = (kindsIn p cs).foldl next (kindIn? p b.changes) := by
  induction cs generalizing b with
  | nil => exact ⟨h, rfl⟩
  | cons c cs ih =>
    obtain ⟨hapart, hkind⟩ := ih (b.add c) (h.addTo c)
    have hadd : kindIn? p (b.add c).changes =
        if Path.same c.path p then next (kindIn? p b.changes) c.kind else kindIn? p b.changes :=
      kindIn?_addTo p c b.changes
    refine ⟨hapart, ?_⟩
    rw [List.foldl_cons, hkind, hadd, kindsIn, kindsIn, List.filter_cons]
    cases Path.same c.path p <;> rfl

/-- What a batch has for a place is what the changes of the place come to, one after the other. -/
theorem kindIn?_ofChanges (p : Path) (cs : List FileChange) :
    kindIn? p (ofChanges cs).changes = (kindsIn p cs).foldl next none :=
  (foldl_add .empty cs .nil p).2

theorem apart_ofChanges (cs : List FileChange) : Apart (ofChanges cs).changes :=
  (foldl_add .empty cs .nil default).1

theorem foldl_next_eq_deleted {kinds : List ChangeKind} :
    kinds.foldl next none = some .deleted ↔ StaysDeleted kinds := by
  induction kinds using List.reverseRecOn with
  | nil =>
    refine ⟨nofun, ?_⟩
    rintro ⟨earlier, later, heq, -⟩
    simp at heq
  | append_singleton kinds k ih =>
    rw [List.foldl_append, List.foldl_cons, List.foldl_nil, staysDeleted_concat, ← ih]
    -- What is known before the change decides together with its kind.
    rcases kinds.foldl next none with _ | j
    · cases k <;> simp [next]
    · cases j <;> cases k <;> simp [next, replace]

theorem foldl_next_of_all {kinds : List ChangeKind} (hne : kinds ≠ []) (hall : ∀ j ∈ kinds, j = k)
    (earlier : Option ChangeKind) : kinds.foldl next earlier = next earlier k := by
  induction kinds generalizing earlier with
  | nil => exact absurd rfl hne
  | cons j kinds ih =>
    obtain ⟨rfl, hrest⟩ := List.forall_mem_cons.1 hall
    rw [List.foldl_cons]
    by_cases hkinds : kinds = []
    · rw [hkinds]
      rfl
    · rw [ih hkinds hrest]
      rcases earlier with _ | i
      · cases j <;> rfl
      · cases i <;> cases j <;> rfl

theorem kindIn?_eq_some (h : Apart cs) :
    kindIn? p cs = some k ↔ ∃ c ∈ cs, Path.same c.path p = true ∧ c.kind = k := by
  induction cs with
  | nil => simp [kindIn?]
  | cons c cs ih =>
    obtain ⟨hc, hcs⟩ := List.pairwise_cons.1 h
    rw [kindIn?_cons, List.exists_mem_cons_iff]
    by_cases hcp : Path.same c.path p = true
    · have hothers : ¬ ∃ d ∈ cs, Path.same d.path p = true ∧ d.kind = k := by
        rintro ⟨d, hd, hdp, -⟩
        have hsame : Path.same c.path d.path = true :=
          Path.same_iff.2 ((Path.same_iff.1 hcp).trans (Path.same_iff.1 hdp).symm)
        rw [hc d hd] at hsame
        cases hsame
      simp [hcp, hothers]
    · simp [hcp, ih hcs]

theorem exists_mem_toRemove {b : ChangeBatch} (h : Apart b.changes) :
    (∃ q ∈ b.toRemove, Path.same q p = true) ↔ kindIn? p b.changes = some .deleted := by
  rw [kindIn?_eq_some h]
  constructor
  · rintro ⟨q, hq, hqp⟩
    exact ⟨_, mem_kindsAt.1 (mem_toRemove.1 hq), hqp, rfl⟩
  · rintro ⟨⟨q, j⟩, hmem, hqp, rfl⟩
    exact ⟨q, mem_toRemove.2 (mem_kindsAt.2 hmem), hqp⟩

theorem exists_mem_toIndex {b : ChangeBatch} (h : Apart b.changes) :
    (∃ q ∈ b.toIndex, Path.same q p = true) ↔
      ∃ k, kindIn? p b.changes = some k ∧ k ≠ .deleted := by
  simp only [kindIn?_eq_some h]
  constructor
  · rintro ⟨q, hq, hqp⟩
    obtain ⟨k, hk, hne⟩ := mem_toIndex.1 hq
    exact ⟨k, ⟨_, mem_kindsAt.1 hk, hqp, rfl⟩, hne⟩
  · rintro ⟨_, ⟨⟨q, j⟩, hmem, hqp, rfl⟩, hne⟩
    exact ⟨q, mem_toIndex.2 ⟨j, mem_kindsAt.2 hmem, hne⟩, hqp⟩

end Fold
end ChangeBatch

section Events

variable {t : FileTree} {e : FileEvent} {p : Path} {k : ChangeKind} {c : FileChange}

def reported (seen : List (FileEvent × FileTree)) : List FileChange :=
  seen.flatMap fun s => s.1.changes s.2

theorem FileType.ofPath?_congr {q : Path} (h : Path.same q p = true) : ofPath? q = ofPath? p := by
  unfold ofPath? Path.extension? Path.fileName?
  rw [Path.same_iff.1 h]

theorem FileTree.isDir_of_isFile (h : t.isFile p = true) :
    t.isDir p = false ∧ t.doesExist p = true := by
  unfold isFile at h
  unfold isDir doesExist
  cases hfind : t.find p with
  | error cause =>
    rw [hfind] at h
    cases h
  | ok entry =>
    rw [hfind] at h
    cases entry with
    | file bytes => exact ⟨rfl, rfl⟩
    | link target => cases h
    | dir entries => cases h

theorem FileEvent.mem_changes :
    c ∈ e.changes t ↔ c.path ∈ e.paths ∧ t.isDir c.path = false ∧
      (FileType.ofPath? c.path).isSome = true ∧ changeKind? t e.kind c.path = some c.kind := by
  simp only [changes, List.mem_filterMap, List.mem_filter, Option.map_eq_some_iff,
    Bool.and_eq_true, Bool.not_eq_true']
  constructor
  · rintro ⟨q, ⟨hq, hdir, htype⟩, kind, hkind, rfl⟩
    exact ⟨hq, hdir, htype, hkind⟩
  · rintro ⟨hpath, hdir, htype, hkind⟩
    exact ⟨c.path, ⟨hpath, hdir, htype⟩, c.kind, hkind, rfl⟩

theorem FileEvent.kindsIn_changes (htype : (FileType.ofPath? p).isSome = true)
    (hnamed : ∃ q ∈ e.paths, Path.same q p = true)
    (hfile : ∀ q ∈ e.paths, Path.same q p = true → t.isFile q = true)
    (hkind : ∀ q, t.isFile q = true → changeKind? t e.kind q = some k) :
    kindsIn p (e.changes t) ≠ [] ∧ ∀ j ∈ kindsIn p (e.changes t), j = k := by
  constructor
  · obtain ⟨q, hq, hqp⟩ := hnamed
    have hisFile := hfile q hq hqp
    have hmem : k ∈ kindsIn p (e.changes t) := mem_kindsIn.2 ⟨⟨q, k⟩, FileEvent.mem_changes.2
      ⟨hq, (FileTree.isDir_of_isFile hisFile).1, FileType.ofPath?_congr hqp ▸ htype,
        hkind q hisFile⟩, hqp, rfl⟩
    exact List.ne_nil_of_mem hmem
  · intro j hj
    obtain ⟨c, hc, hcp, rfl⟩ := mem_kindsIn.1 hj
    obtain ⟨hpath, -, -, hchange⟩ := FileEvent.mem_changes.1 hc
    rw [hkind c.path (hfile c.path hpath hcp)] at hchange
    exact (Option.some.inj hchange).symm

theorem kindsIn_reported_eq_nil {seen : List (FileEvent × FileTree)}
    (h : ∀ s ∈ seen, ∀ q ∈ s.1.paths, Path.same q p = false) : kindsIn p (reported seen) = [] := by
  refine kindsIn_eq_nil fun c hc => ?_
  obtain ⟨s, hs, hmem⟩ := List.mem_flatMap.1 hc
  exact h s hs c.path (FileEvent.mem_changes.1 hmem).1

theorem kindIn?_of_last {before after : List (FileEvent × FileTree)}
    (hne : kindsIn p (e.changes t) ≠ []) (hall : ∀ j ∈ kindsIn p (e.changes t), j = k)
    (hlast : ∀ s ∈ after, ∀ q ∈ s.1.paths, Path.same q p = false) :
    ChangeBatch.kindIn? p (ChangeBatch.ofChanges (reported (before ++ (e, t) :: after))).changes =
      ChangeBatch.next ((kindsIn p (reported before)).foldl ChangeBatch.next none) k := by
  have hsplit : kindsIn p (reported (before ++ (e, t) :: after)) =
      kindsIn p (reported before) ++ kindsIn p (e.changes t) := by
    rw [reported, List.flatMap_append, List.flatMap_cons, kindsIn_append, kindsIn_append]
    change _ ++ (_ ++ kindsIn p (reported after)) = _
    rw [kindsIn_reported_eq_nil hlast, List.append_nil]
    rfl
  rw [ChangeBatch.kindIn?_ofChanges, hsplit, List.foldl_append,
    ChangeBatch.foldl_next_of_all hne hall]

/-- A place whose last event is a creation, or a renaming that finds a file there, is indexed and not
removed, but for one case: a renaming does not undo a deletion, so the place is removed and not
indexed if it stays deleted by what was reported before. -/
theorem moved_file_is_indexed {before after : List (FileEvent × FileTree)}
    (hkind : e.kind = .create ∨ e.kind = .rename) (htype : (FileType.ofPath? p).isSome = true)
    (hnamed : ∃ q ∈ e.paths, Path.same q p = true)
    (hfile : ∀ q ∈ e.paths, Path.same q p = true → t.isFile q = true)
    (hlast : ∀ s ∈ after, ∀ q ∈ s.1.paths, Path.same q p = false) :
    let b := ChangeBatch.ofChanges (reported (before ++ (e, t) :: after))
    let undone := e.kind = .rename ∧ StaysDeleted (kindsIn p (reported before))
    ((∃ q ∈ b.toIndex, Path.same q p = true) ↔ ¬ undone) ∧
      ((∃ q ∈ b.toRemove, Path.same q p = true) ↔ undone) := by
  intro b undone
  have hapart := ChangeBatch.apart_ofChanges (reported (before ++ (e, t) :: after))
  rw [ChangeBatch.exists_mem_toIndex hapart, ChangeBatch.exists_mem_toRemove hapart]
  rcases hkind with hcreate | hrename
  · -- A creation undoes a deletion, so whatever came before does not matter.
    obtain ⟨hne, hall⟩ := FileEvent.kindsIn_changes (k := .created) htype hnamed hfile
      fun q _ => by rw [hcreate]; rfl
    have hnot : ¬ undone := by
      rintro ⟨hrename, -⟩
      rw [hcreate] at hrename
      cases hrename
    rw [kindIn?_of_last hne hall hlast]
    rcases (kindsIn p (reported before)).foldl ChangeBatch.next none with _ | i
    · simp [ChangeBatch.next, hnot]
    · cases i <;> simp [ChangeBatch.next, ChangeBatch.replace, hnot]
  · -- A renaming counts as a modification, which leaves a deletion as it is.
    obtain ⟨hne, hall⟩ := FileEvent.kindsIn_changes (k := .modified) htype hnamed hfile
      fun q hq => by
        rw [hrename, FileEvent.changeKind?, (FileTree.isDir_of_isFile hq).2]
        rfl
    have hundone : undone ↔
        (kindsIn p (reported before)).foldl ChangeBatch.next none = some .deleted := by
      rw [ChangeBatch.foldl_next_eq_deleted]
      exact and_iff_right hrename
    rw [kindIn?_of_last hne hall hlast, hundone]
    rcases (kindsIn p (reported before)).foldl ChangeBatch.next none with _ | i
    · simp [ChangeBatch.next]
    · cases i <;> simp [ChangeBatch.next, ChangeBatch.replace]

def twoScripts : FileTree where
  root := .dir [("p".toList, .dir [
    ("a.js".toList, .file "let a;".toUTF8.toList), ("b.js".toList, .file "let b;".toUTF8.toList)])]

def scriptA : Path := .ofString "/p/a.js"

def scriptB : Path := .ofString "/p/b.js"

def seenAlong : FileTree → List Edit → List (FileEvent × FileTree)
  | _, [] => []
  | t, e :: es => (e.events t).map (·, e.apply t) ++ seenAlong (e.apply t) es

/-- A script that is deleted and written again. -/
theorem moved_file_is_indexed_recreated :
    let gone := (Edit.delete scriptB).apply twoScripts
    let again := (Edit.write scriptB []).apply gone
    seenAlong twoScripts [.delete scriptB, .write scriptB []] =
        [(⟨.remove, [scriptB]⟩, gone), (⟨.create, [scriptB]⟩, again)] ∧
      again.isFile scriptB = true ∧
      let b := ChangeBatch.ofChanges
        (reported [(⟨.remove, [scriptB]⟩, gone), (⟨.create, [scriptB]⟩, again)])
      (∃ q ∈ b.toIndex, Path.same q scriptB = true) ∧
        ¬ ∃ q ∈ b.toRemove, Path.same q scriptB = true := by
  intro gone again
  have hfile : again.isFile scriptB = true := by decide +kernel
  have hmoved := @moved_file_is_indexed again ⟨.create, [scriptB]⟩ scriptB
    [(⟨.remove, [scriptB]⟩, gone)] [] (.inl rfl) (by decide +kernel)
    ⟨scriptB, List.mem_singleton_self _, by decide +kernel⟩
    (fun q hq _ => List.mem_singleton.1 hq ▸ hfile) nofun
  have hcreate : ¬ (EventKind.create = EventKind.rename ∧
      StaysDeleted (kindsIn scriptB (reported [(⟨.remove, [scriptB]⟩, gone)]))) := nofun
  exact ⟨rfl, hfile, hmoved.1.2 hcreate, fun h => hcreate (hmoved.2.1 h)⟩

/-- A script is deleted and another one is moved to its place. The batch removes both and indexes
none, though the place holds a file. -/
theorem moved_file_is_removed :
    let seen := seenAlong twoScripts [.delete scriptB, .rename scriptA scriptB]
    let b := ChangeBatch.ofChanges (reported seen)
    seen.map Prod.fst = [⟨.remove, [scriptB]⟩, ⟨.rename, [scriptA, scriptB]⟩] ∧
      (seen.getLast?.map fun s => s.2.isFile scriptB) = some true ∧
      (FileType.ofPath? scriptB).isSome = true ∧
      b.toIndex = [] ∧ b.toRemove = [scriptB, scriptA] := by
  decide +kernel

end Events
end ProjectIndex
