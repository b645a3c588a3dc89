import Mathlib.Data.List.Nodup
import ProjectIndex.Proofs.Files.Order
import ProjectIndex.Proofs.Files.Walk

/-!
The list of paths that a walk gives: in order, each path once. Where no link stands below the root,
a walk that follows links gives the same list as one that passes over them.
-/
namespace ProjectIndex

namespace Walk

open FileTree

theorem pathOf_inj {names others : List Name} (hnames : ∀ n ∈ names, Plain n)
    (hothers : ∀ n ∈ others, Plain n) (h : pathOf names = pathOf others) : names = others :=
  same_pathOf hnames hothers (Path.same_iff.2 (congrArg Path.components h))

theorem plain_snoc {place : List Name} (hplace : ∀ n ∈ place, Plain n) {n : Name} (hn : Plain n) :
    ∀ m ∈ place ++ [n], Plain m := by
  intro m hm
  rcases List.mem_append.1 hm with hm | hm
  · exact hplace m hm
  · exact List.mem_singleton.1 hm ▸ hn

theorem pairwise_names {entries : List (Name × Entry)} (h : Entry.areWellNamed entries = true) :
    entries.Pairwise fun c d => c.1 ≠ d.1 := by
  induction entries with
  | nil => exact List.Pairwise.nil
  | cons c rest ih =>
    obtain ⟨⟨_, hdiffer⟩, _, hrest⟩ := Entry.areWellNamed_cons.1 h
    exact List.pairwise_cons.2 ⟨fun d hd => (hdiffer d hd).symm, ih hrest⟩

/-- Files that stand at or below a place, each listed once. -/
structure Listed (place : List Name) (files : List FoundFile) : Prop where
  path : ∀ f ∈ files, ∃ names, (∀ n ∈ names, Plain n) ∧ f.path = pathOf (place ++ names)
  nodup : (files.map FoundFile.path).Nodup

theorem listed_nil (place : List Name) : Listed place [] := ⟨nofun, List.nodup_nil⟩

theorem listed_found (place : List Name) (bytes : List UInt8) :
    Listed place (found (pathOf place) bytes) := by
  unfold found
  split
  · refine ⟨fun f hf => ⟨[], nofun, ?_⟩, List.nodup_singleton _⟩
    rw [List.mem_singleton.1 hf, List.append_nil]
  · exact listed_nil place

theorem listed_sorted {place : List Name} {files : List FoundFile} (h : Listed place files) :
    Listed place (sorted files) := by
  have hperm : (sorted files).Perm files := List.mergeSort_perm ..
  exact ⟨fun f hf => h.path f (hperm.mem_iff.1 hf), (hperm.map FoundFile.path).nodup_iff.2 h.nodup⟩

theorem listed_dir {place : List Name} (hplace : ∀ n ∈ place, Plain n)
    {entries : List (Name × Entry)} (h : Entry.areWellNamed entries = true)
    {behind : Name × Entry → List FoundFile}
    (hbehind : ∀ c ∈ entries, Listed (place ++ [c.1]) (behind c)) :
    Listed place (entries.flatMap behind) := by
  have hname : ∀ c ∈ entries, Plain c.1 := fun c hc => (Entry.wellNamed_of_mem h hc).1
  constructor
  · intro f hf
    obtain ⟨c, hc, hf⟩ := List.mem_flatMap.1 hf
    obtain ⟨names, hnames, hpath⟩ := (hbehind c hc).path f hf
    exact ⟨c.1 :: names, List.forall_mem_cons.2 ⟨hname c hc, hnames⟩, by simpa using hpath⟩
  · rw [List.map_flatMap, List.nodup_flatMap]
    refine ⟨fun c hc => (hbehind c hc).nodup, (pairwise_names h).imp_of_mem ?_⟩
    -- Paths through different names of one directory differ behind its place.
    intro c d hc hd hne p hp hq
    obtain ⟨f, hf, rfl⟩ := List.mem_map.1 hp
    obtain ⟨g, hg, hsame⟩ := List.mem_map.1 hq
    obtain ⟨names, hnames, hfpath⟩ := (hbehind c hc).path f hf
    obtain ⟨others, hothers, hgpath⟩ := (hbehind d hd).path g hg
    have hall : ∀ e ∈ entries, ∀ ns : List Name, (∀ x ∈ ns, Plain x) →
        ∀ x ∈ place ++ [e.1] ++ ns, Plain x := fun e he ns hns x hx =>
      (List.mem_append.1 hx).elim (plain_snoc hplace (hname e he) x) (hns x)
    rw [hfpath, hgpath] at hsame
    have hnames' := pathOf_inj (hall d hd others hothers) (hall c hc names hnames) hsame
    rw [List.append_assoc, List.append_assoc] at hnames'
    exact hne (List.cons.inj (List.append_cancel_left hnames')).1.symm

mutual

theorem listed_below (skip : SkipNames) :
    ∀ (e : Entry) (place : List Name), (∀ n ∈ place, Plain n) → e.isWellNamed = true →
      Listed place (below skip (pathOf place) e)
  | .file bytes, place, _, _ => listed_found place bytes
  | .link target, place, _, _ => listed_nil place
  | .dir entries, place, hplace, h => by
    rw [Entry.isWellNamed] at h
    rw [below, among_eq_flatMap]
    refine listed_dir hplace h fun c hc => ?_
    rw [join_pathOf hplace (Entry.wellNamed_of_mem h hc).1]
    split
    · exact listed_child skip entries place hplace h c hc
    · exact listed_nil _

theorem listed_child (skip : SkipNames) :
    ∀ (entries : List (Name × Entry)) (place : List Name), (∀ n ∈ place, Plain n) →
      Entry.areWellNamed entries = true → ∀ c ∈ entries,
        Listed (place ++ [c.1]) (below skip (pathOf (place ++ [c.1])) c.2)
  | [], _, _, _, _, hc => absurd hc List.not_mem_nil
  | (n, e) :: rest, place, hplace, h, c, hc => by
    obtain ⟨⟨hn, _⟩, he, hrest⟩ := Entry.areWellNamed_cons.1 h
    rcases List.mem_cons.1 hc with rfl | hc
    · exact listed_below skip e (place ++ [n]) (plain_snoc hplace hn) he
    · exact listed_child skip rest place hplace hrest c hc

end

theorem listed_following {t : FileTree} (ht : t.root.isWellNamed = true) (skip : SkipNames)
    (depth : Nat) (trail : List (List Name)) {place : List Name} (names : List Name)
    (hplace : ∀ n ∈ place, Plain n) :
    Listed place (following t skip depth trail (pathOf place) names) := by
  induction depth generalizing trail place names with
  | zero => exact listed_nil place
  | succ depth ih =>
    rw [following]
    split
    · exact listed_found place _
    · next entries hget =>
      have hentries : Entry.areWellNamed entries = true := (Entry.plain_of_get? ht hget).2
      refine listed_dir hplace hentries fun c hc => ?_
      have hn := (Entry.wellNamed_of_mem hentries hc).1
      have hsnoc := plain_snoc hplace hn
      dsimp only
      rw [join_pathOf hplace hn]
      split
      · -- A link leads nowhere, into a directory or to a file.
        split
        · exact listed_nil _
        · split
          · split
            · exact listed_nil _
            · exact ih _ _ hsnoc
          · exact listed_found _ _
          · exact listed_nil _
      · split
        · exact ih _ _ hsnoc
        · exact listed_nil _
    · exact listed_nil place

theorem entryCount_pos (e : Entry) : 0 < entryCount e := by
  cases e with
  | dir entries =>
    rw [entryCount]
    omega
  | _ => exact Nat.one_pos

theorem entryCount_le_of_mem {entries : List (Name × Entry)} {n : Name} {e : Entry}
    (h : (n, e) ∈ entries) : entryCount e ≤ entriesCount entries := by
  induction entries with
  | nil => exact absurd h List.not_mem_nil
  | cons c rest ih =>
    obtain ⟨m, d⟩ := c
    rw [entriesCount]
    rcases List.mem_cons.1 h with heq | hmem
    · cases heq
      exact Nat.le_add_right _ _
    · exact Nat.le_trans (ih hmem) (Nat.le_add_left _ _)

theorem entryCount_lt_dir {entries : List (Name × Entry)} {n : Name} {e : Entry}
    (h : (n, e) ∈ entries) : entryCount e < entryCount (.dir entries) := by
  have hle := entryCount_le_of_mem h
  rw [entryCount]
  omega

theorem entryCount_le_of_get? {e c : Entry} (h : e.isWellNamed = true) {names : List Name}
    (hget : e.get? names = some c) : entryCount c ≤ entryCount e := by
  induction names generalizing e with
  | nil =>
    cases hget
    exact Nat.le_refl _
  | cons n names ih =>
    obtain ⟨entries, d, rfl, hlookup, hd⟩ := Entry.get?_cons_eq_some hget
    rw [Entry.isWellNamed] at h
    have hmem := (Entry.lookup_eq_some h).1 hlookup
    have hchild := ih (Entry.wellNamed_of_mem h hmem).2 hd
    exact Nat.le_trans hchild (Nat.le_of_lt (entryCount_lt_dir hmem))

/-- With no link on its way and depth to spare, a walk that follows links finds what stands below
its place. -/
theorem following_eq_below (t : FileTree) (skip : SkipNames) (depth : Nat) {e : Entry}
    {names : List Name} (hget : t.root.get? names = some e) (h : e.isWellNamed = true)
    (hlinks : ∀ below target, e.get? below ≠ some (.link target)) (hdepth : entryCount e ≤ depth)
    (trail : List (List Name)) (path : Path) :
    following t skip depth trail path names = below skip path e := by
  induction depth generalizing e names trail path with
  | zero => exact absurd hdepth (Nat.not_le.2 (entryCount_pos e))
  | succ depth ih =>
    rw [following, hget]
    cases e with
    | file bytes => rfl
    | link target => exact absurd rfl (hlinks [] target)
    | dir entries =>
      rw [Entry.isWellNamed] at h
      rw [below, among_eq_flatMap]
      refine List.flatMap_congr fun c hmem => ?_
      obtain ⟨n, d⟩ := c
      have hlookup := (Entry.lookup_eq_some h).2 hmem
      have hdget : t.root.get? (names ++ [n]) = some d := (Entry.get?_snoc hget n).trans hlookup
      have hdlinks : ∀ below target, d.get? below ≠ some (.link target) := by
        intro below target hlink
        refine hlinks (n :: below) target ?_
        rw [Entry.get?, Entry.child?, hlookup]
        exact hlink
      have hdcount : entryCount d ≤ depth :=
        Nat.le_of_lt_succ (Nat.lt_of_lt_of_le (entryCount_lt_dir hmem) hdepth)
      have hchild := ih hdget (Entry.wellNamed_of_mem h hmem).2 hdlinks hdcount (names :: trail)
        (path.join ⟨n⟩)
      dsimp only
      rw [← hchild]
      cases d with
      | link target => exact absurd rfl (hdlinks [] target)
      | file bytes => rfl
      | dir inner => rfl

theorem below_subset_following (t : FileTree) (skip : SkipNames) (depth : Nat) {e : Entry}
    {names : List Name} (hget : t.root.get? names = some e) (h : e.isWellNamed = true)
    (hdepth : entryCount e ≤ depth) (trail : List (List Name)) (path : Path) :
    below skip path e ⊆ following t skip depth trail path names := by
  induction depth generalizing e names trail path with
  | zero => exact absurd hdepth (Nat.not_le.2 (entryCount_pos e))
  | succ depth ih =>
    rw [following, hget]
    cases e with
    | file bytes => exact List.Subset.refl _
    | link target => exact List.nil_subset _
    | dir entries =>
      rw [Entry.isWellNamed] at h
      rw [below, among_eq_flatMap]
      intro f hf
      obtain ⟨⟨n, d⟩, hmem, hf⟩ := List.mem_flatMap.1 hf
      have hdget : t.root.get? (names ++ [n]) = some d :=
        (Entry.get?_snoc hget n).trans ((Entry.lookup_eq_some h).2 hmem)
      have hdcount : entryCount d ≤ depth :=
        Nat.le_of_lt_succ (Nat.lt_of_lt_of_le (entryCount_lt_dir hmem) hdepth)
      have hchild := ih hdget (Entry.wellNamed_of_mem h hmem).2 hdcount (names :: trail)
        (path.join ⟨n⟩)
      refine List.mem_flatMap.2 ⟨(n, d), hmem, ?_⟩
      dsimp only at hf ⊢
      split at hf
      · next hentered =>
        cases d with
        | link target => exact absurd hf List.not_mem_nil
        | file bytes => exact if_pos hentered ▸ hchild hf
        | dir inner => exact if_pos hentered ▸ hchild hf
      · exact absurd hf List.not_mem_nil

end Walk

namespace FileTree

def LinkFree (t : FileTree) (root : Path) : Prop :=
  ∀ place below target, t.resolve root = .ok place →
    t.root.get? (place ++ below) ≠ some (.link target)

theorem walk_of_linkFree {t : FileTree} (ht : t.root.isWellNamed = true) {root : Path}
    (hlinks : t.LinkFree root) (skip : SkipNames) (followLinks : Bool) :
    t.walk root skip followLinks = t.walk root skip false := by
  cases followLinks with
  | false => rfl
  | true =>
    unfold walk
    cases hplace : t.resolve root with
    | error cause => rfl
    | ok place =>
      simp only [if_true, Bool.false_eq_true, if_false]
      cases he : t.root.get? place with
      | none => simp only [Walk.following, he, Walk.sorted, List.mergeSort_nil]
      | some e =>
        have hbelow : ∀ below target, e.get? below ≠ some (.link target) := by
          intro below target hget
          apply hlinks place below target hplace
          rw [Entry.get?_append, he]
          exact hget
        have hcount := Walk.entryCount_le_of_get? ht he
        rw [Walk.following_eq_below t skip _ he (Entry.plain_of_get? ht he).2 hbelow
          (Nat.le_succ_of_le hcount)]

theorem walk_subset {t : FileTree} (ht : t.root.isWellNamed = true) (root : Path)
    (skip : SkipNames) (followLinks : Bool) :
    t.walk root skip false ⊆ t.walk root skip followLinks := by
  cases followLinks with
  | false => exact List.Subset.refl _
  | true =>
    unfold walk
    cases hplace : t.resolve root with
    | error cause => exact List.nil_subset _
    | ok place =>
      simp only [if_true, Bool.false_eq_true, if_false]
      cases he : t.root.get? place with
      | none => exact List.nil_subset _
      | some e =>
        intro f hf
        simp only [Walk.sorted, List.mem_mergeSort] at hf ⊢
        have hcount := Walk.entryCount_le_of_get? ht he
        exact Walk.below_subset_following t skip _ he (Entry.plain_of_get? ht he).2
          (Nat.le_succ_of_le hcount) [] root hf

theorem pairwise_walk (t : FileTree) (root : Path) (skip : SkipNames) (followLinks : Bool) :
    ((t.walk root skip followLinks).map FoundFile.path).Pairwise
      fun p q => Path.before p q = true := by
  have hsorted : ∀ files : List FoundFile,
      ((Walk.sorted files).map FoundFile.path).Pairwise fun p q => Path.before p q = true := by
    intro files
    rw [List.pairwise_map]
    exact List.pairwise_mergeSort (fun a b c => Path.before_trans a.path b.path c.path)
      (fun a b => Path.before_total a.path b.path) files
  unfold walk
  split
  · exact List.Pairwise.nil
  · split
    · exact hsorted _
    · split
      · exact hsorted _
      · exact List.Pairwise.nil

theorem listed_walk {t : FileTree} (ht : t.root.isWellNamed = true) {names : List Name}
    (hnames : ∀ n ∈ names, Plain n) (skip : SkipNames) (followLinks : Bool) :
    Walk.Listed names (t.walk (pathOf names) skip followLinks) := by
  unfold walk
  split
  · exact Walk.listed_nil names
  · next place _ =>
    split
    · exact Walk.listed_sorted (Walk.listed_following ht skip _ [] place hnames)
    · split
      · next e he =>
        have hwell := (Entry.plain_of_get? ht he).2
        exact Walk.listed_sorted (Walk.listed_below skip e names hnames hwell)
      · exact Walk.listed_nil names

theorem nodup_walk {t : FileTree} (ht : t.root.isWellNamed = true) {names : List Name}
    (hnames : ∀ n ∈ names, Plain n) (skip : SkipNames) (followLinks : Bool) :
    ((t.walk (pathOf names) skip followLinks).map FoundFile.path).Nodup :=
  (listed_walk ht hnames skip followLinks).nodup

theorem path_of_mem_walk {t : FileTree} (ht : t.root.isWellNamed = true) {names : List Name}
    (hnames : ∀ n ∈ names, Plain n) {skip : SkipNames} {followLinks : Bool} {f : FoundFile}
    (h : f ∈ t.walk (pathOf names) skip followLinks) :
    ∃ below, (∀ n ∈ below, Plain n) ∧ f.path = pathOf (names ++ below) :=
  (listed_walk ht hnames skip followLinks).path f h

theorem descend_inj {place below others : List Name} (hplace : ∀ n ∈ place, Plain n)
    (hbelow : ∀ n ∈ below, Plain n) (hothers : ∀ n ∈ others, Plain n)
    (h : (pathOf place).descend below = (pathOf place).descend others) : below = others := by
  have hall : ∀ ns : List Name, (∀ n ∈ ns, Plain n) → ∀ n ∈ place ++ ns, Plain n :=
    fun ns hns n hn => (List.mem_append.1 hn).elim (hplace n) (hns n)
  rw [descend_pathOf hplace hbelow, descend_pathOf hplace hothers] at h
  exact List.append_cancel_left (Walk.pathOf_inj (hall _ hbelow) (hall _ hothers) h)

theorem strict_walk {t : FileTree} (ht : t.root.isWellNamed = true) {names : List Name}
    (hnames : ∀ n ∈ names, Plain n) (skip : SkipNames) (followLinks : Bool) :
    ((t.walk (pathOf names) skip followLinks).map FoundFile.path).Pairwise
      fun p q => Path.before p q = true ∧ Path.same p q = false := by
  have hboth := (pairwise_walk t (pathOf names) skip followLinks).and
    (nodup_walk ht hnames skip followLinks)
  refine hboth.imp_of_mem ?_
  rintro p q hp hq ⟨hbefore, hne⟩
  refine ⟨hbefore, Bool.eq_false_iff.2 fun hsame => hne ?_⟩
  obtain ⟨f, hf, rfl⟩ := List.mem_map.1 hp
  obtain ⟨g, hg, rfl⟩ := List.mem_map.1 hq
  obtain ⟨below, hbelow, hfpath⟩ := path_of_mem_walk ht hnames hf
  obtain ⟨others, hothers, hgpath⟩ := path_of_mem_walk ht hnames hg
  have hall : ∀ ns : List Name, (∀ n ∈ ns, Plain n) → ∀ n ∈ names ++ ns, Plain n :=
    fun ns hns n hn => (List.mem_append.1 hn).elim (hnames n) (hns n)
  rw [hfpath, hgpath] at hsame ⊢
  rw [same_pathOf (hall below hbelow) (hall others hothers) hsame]

end FileTree
end ProjectIndex
