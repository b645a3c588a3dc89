import ProjectIndex.Files.Walk
import ProjectIndex.Proofs.Files.Resolve

/-!
What a walk finds. With links passed over, it finds the files that stand at or below the root, have
a grammar and lie in no skipped directory, each under the path that goes down to it from the root.
-/
namespace ProjectIndex

namespace Entry

mutual

def isWellNamed : Entry → Bool
  | .file _ => true
  | .link _ => true
  | .dir entries => areWellNamed entries

def areWellNamed : List (Name × Entry) → Bool
  | [] => true
  | (n, e) :: rest =>
    decide (Plain n) && (rest.all fun c => c.1 != n) && e.isWellNamed && areWellNamed rest

end

theorem areWellNamed_cons {n : Name} {e : Entry} {rest : List (Name × Entry)} :
    areWellNamed ((n, e) :: rest) = true ↔
      (Plain n ∧ ∀ c ∈ rest, c.1 ≠ n) ∧ e.isWellNamed = true ∧ areWellNamed rest = true := by
  simp [areWellNamed, and_assoc]

theorem lookup_eq_some {entries : List (Name × Entry)} (h : areWellNamed entries = true) {n : Name}
    {e : Entry} : entries.lookup n = some e ↔ (n, e) ∈ entries := by
  induction entries with
  | nil => simp
  | cons c rest ih =>
    obtain ⟨m, d⟩ := c
    obtain ⟨⟨_, hne⟩, _, hrest⟩ := areWellNamed_cons.1 h
    rw [List.lookup_cons, List.mem_cons]
    by_cases hnm : n = m
    · subst hnm
      have habsent : (n, e) ∉ rest := fun hmem => hne (n, e) hmem rfl
      simp [habsent, eq_comm]
    · have hbeq : (n == m) = false := by simpa using hnm
      simp [hbeq, hnm, ih hrest]

theorem wellNamed_of_mem {entries : List (Name × Entry)} (h : areWellNamed entries = true)
    {n : Name} {e : Entry} (hmem : (n, e) ∈ entries) : Plain n ∧ e.isWellNamed = true := by
  induction entries with
  | nil => exact absurd hmem List.not_mem_nil
  | cons c rest ih =>
    obtain ⟨m, d⟩ := c
    obtain ⟨⟨hm, _⟩, hd, hrest⟩ := areWellNamed_cons.1 h
    rcases List.mem_cons.1 hmem with heq | hmem
    · cases heq
      exact ⟨hm, hd⟩
    · exact ih hrest hmem

theorem plain_of_get? {e c : Entry} (h : e.isWellNamed = true) {names : List Name}
    (hget : e.get? names = some c) : (∀ n ∈ names, Plain n) ∧ c.isWellNamed = true := by
  induction names generalizing e with
  | nil =>
    cases hget
    exact ⟨fun n hn => absurd hn List.not_mem_nil, h⟩
  | cons n names ih =>
    obtain ⟨entries, d, rfl, hlookup, hd⟩ := get?_cons_eq_some hget
    rw [isWellNamed] at h
    obtain ⟨hn, hwell⟩ := wellNamed_of_mem h ((lookup_eq_some h).1 hlookup)
    obtain ⟨hnames, hc⟩ := ih hwell hd
    exact ⟨List.forall_mem_cons.2 ⟨hn, hnames⟩, hc⟩

end Entry

namespace Walk

theorem among_eq_flatMap (skip : SkipNames) (path : Path) (entries : List (Name × Entry)) :
    among skip path entries = entries.flatMap fun c =>
      if entered skip c.1 c.2 then below skip (path.join ⟨c.1⟩) c.2 else [] := by
  induction entries with
  | nil => rfl
  | cons c rest ih =>
    rw [List.flatMap_cons, ← ih]
    rfl

/-- A file with a grammar behind some names, of which none but the last is skipped. -/
def Reaches (skip : SkipNames) (path : Path) (e : Entry) (f : FoundFile) : Prop :=
  ∃ names bytes, e.get? names = some (.file bytes) ∧ f = ⟨path.descend names, bytes.length⟩ ∧
    (FileType.ofPath? (path.descend names)).isSome = true ∧
    ∀ n ∈ names.dropLast, skip.contains (String.ofList n) = false

theorem reaches_dir {skip : SkipNames} {path : Path} {entries : List (Name × Entry)}
    (h : Entry.areWellNamed entries = true) {f : FoundFile} :
    Reaches skip path (.dir entries) f ↔
      ∃ n e, (n, e) ∈ entries ∧ entered skip n e = true ∧ Reaches skip (path.join ⟨n⟩) e f := by
  constructor
  · rintro ⟨names, bytes, hget, rfl, htype, hskip⟩
    cases names with
    | nil => cases hget
    | cons n names =>
      obtain ⟨_, e, hdir, hlookup, he⟩ := Entry.get?_cons_eq_some hget
      cases hdir
      refine ⟨n, e, (Entry.lookup_eq_some h).1 hlookup, ?_, names, bytes, he, rfl, htype, ?_⟩
      · cases names with
        | nil =>
          cases he
          rfl
        | cons m names =>
          have hn := hskip n (by simp)
          simp [entered, hn]
      · intro m hm
        apply hskip m
        cases names with
        | nil => exact absurd hm List.not_mem_nil
        | cons m' names => exact List.mem_cons_of_mem n hm
  · rintro ⟨n, e, hmem, hentered, names, bytes, he, rfl, htype, hskip⟩
    have hlookup := (Entry.lookup_eq_some h).2 hmem
    refine ⟨n :: names, bytes, ?_, rfl, htype, ?_⟩
    · rw [Entry.get?, Entry.child?, hlookup]
      exact he
    · cases names with
      | nil => exact fun m hm => absurd hm List.not_mem_nil
      | cons m names =>
        -- Something follows the name, so it is that of a directory.
        obtain ⟨_, _, rfl, _, _⟩ := Entry.get?_cons_eq_some he
        intro m' hm'
        rcases List.mem_cons.1 hm' with rfl | hm'
        · simpa [entered, Entry.isDir] using hentered
        · exact hskip m' hm'

mutual

theorem mem_below (skip : SkipNames) (f : FoundFile) :
    ∀ (e : Entry) (path : Path), e.isWellNamed = true →
      (f ∈ below skip path e ↔ Reaches skip path e f)
  | .file bytes, path, _ => by
    constructor
    · intro hf
      rw [below, found] at hf
      split at hf
      · next htype =>
        refine ⟨[], bytes, rfl, List.mem_singleton.1 hf, htype, fun n hn => ?_⟩
        exact absurd hn List.not_mem_nil
      · exact absurd hf List.not_mem_nil
    · rintro ⟨names, bytes', hget, rfl, htype, _⟩
      cases names with
      | nil =>
        cases hget
        have hfound : below skip path (.file bytes) = [⟨path, bytes.length⟩] := by
          rw [below, found]
          exact if_pos htype
        rw [hfound]
        exact List.mem_singleton_self _
      | cons n names => cases hget
  | .link target, path, _ => by
    rw [below]
    refine ⟨fun hf => absurd hf List.not_mem_nil, ?_⟩
    rintro ⟨names, bytes, hget, _⟩
    cases names <;> cases hget
  | .dir entries, path, h => by
    rw [Entry.isWellNamed] at h
    rw [below, reaches_dir h]
    exact mem_among skip f entries path h

theorem mem_among (skip : SkipNames) (f : FoundFile) :
    ∀ (entries : List (Name × Entry)) (path : Path), Entry.areWellNamed entries = true →
      (f ∈ among skip path entries ↔
        ∃ n e, (n, e) ∈ entries ∧ entered skip n e = true ∧ Reaches skip (path.join ⟨n⟩) e f)
  | [], path, _ => by simp [among]
  | (n, e) :: rest, path, h => by
    obtain ⟨_, he, hrest⟩ := Entry.areWellNamed_cons.1 h
    have hbelow := mem_below skip f e (path.join ⟨n⟩) he
    have hamong := mem_among skip f rest path hrest
    rw [among, List.mem_append, hamong]
    constructor
    · rintro (hf | ⟨m, d, hmem, hd⟩)
      · split at hf
        · next hentered => exact ⟨n, e, List.mem_cons_self .., hentered, hbelow.1 hf⟩
        · exact absurd hf List.not_mem_nil
      · exact ⟨m, d, List.mem_cons_of_mem _ hmem, hd⟩
    · rintro ⟨m, d, hmem, hentered, hd⟩
      rcases List.mem_cons.1 hmem with heq | hmem
      · cases heq
        rw [if_pos hentered]
        exact .inl (hbelow.2 hd)
      · exact .inr ⟨m, d, hmem, hentered, hd⟩

end

end Walk

namespace FileTree

/-- A file with this content stands at or below the place of `root`, and `p` goes down to it from
`root`. No link is followed on the way down. -/
def HoldsFile (t : FileTree) (root p : Path) (bytes : List UInt8) : Prop :=
  ∃ place below, t.resolve root = .ok place ∧
    t.root.get? (place ++ below) = some (.file bytes) ∧ p = root.descend below

theorem holdsFile_iff_of_resolve {t : FileTree} {root p : Path} {place : List Name}
    {bytes : List UInt8} (h : t.resolve root = .ok place) :
    t.HoldsFile root p bytes ↔
      ∃ below, t.root.get? (place ++ below) = some (.file bytes) ∧ p = root.descend below := by
  refine ⟨?_, fun ⟨below, hget, hp⟩ => ⟨place, below, h, hget, hp⟩⟩
  rintro ⟨place', below, hplace, hget, hp⟩
  obtain rfl := Except.ok.inj (h.symm.trans hplace)
  exact ⟨below, hget, hp⟩

/-- A path as a walk from `root` spells it. -/
def Spelled (root p : Path) : Prop := ∃ below, (∀ n ∈ below, Plain n) ∧ p = root.descend below

theorem HoldsFile.spelled {t : FileTree} (ht : t.root.isWellNamed = true) {root p : Path}
    {bytes : List UInt8} (h : t.HoldsFile root p bytes) : Spelled root p := by
  obtain ⟨place, below, _, hget, hp⟩ := h
  have hplain := (Entry.plain_of_get? ht hget).1
  exact ⟨below, fun n hn => hplain n (List.mem_append_right _ hn), hp⟩

theorem excludes_descend (skip : SkipNames) {names below : List Name}
    (hnames : ∀ n ∈ names, Plain n) (hbelow : ∀ n ∈ below, Plain n) :
    skip.excludes (pathOf names) ((pathOf names).descend below) =
      below.dropLast.any fun n => skip.contains (String.ofList n) := by
  rw [SkipNames.excludes, descend_pathOf hnames hbelow, relativeComponents_pathOf hnames hbelow,
    ← List.map_dropLast, List.any_map]
  rfl

/-- A walk that follows no link finds the files below the root with a grammar, outside the skipped
directories. -/
theorem mem_walk_iff {t : FileTree} (ht : t.root.isWellNamed = true) {names : List Name}
    (hnames : ∀ n ∈ names, Plain n) (skip : SkipNames) (f : FoundFile) :
    f ∈ t.walk (pathOf names) skip false ↔
      ∃ bytes, t.HoldsFile (pathOf names) f.path bytes ∧ f.size = bytes.length ∧
        (FileType.ofPath? f.path).isSome = true ∧ skip.excludes (pathOf names) f.path = false := by
  unfold walk
  cases hplace : t.resolve (pathOf names) with
  | error cause => simp [HoldsFile, hplace]
  | ok place =>
    cases he : t.root.get? place with
    | none => simp [HoldsFile, hplace, Entry.get?_append, he]
    | some e =>
      have hwell := (Entry.plain_of_get? ht he).2
      have hget : ∀ below, t.root.get? (place ++ below) = e.get? below := by
        intro below
        rw [Entry.get?_append, he]
        rfl
      have hexcludes : ∀ below c, e.get? below = some c →
          ((∀ n ∈ below.dropLast, skip.contains (String.ofList n) = false) ↔
            skip.excludes (pathOf names) ((pathOf names).descend below) = false) := by
        intro below c hc
        rw [excludes_descend skip hnames (Entry.plain_of_get? hwell hc).1, List.any_eq_false]
        simp only [Bool.not_eq_true]
      simp only [Bool.false_eq_true, if_false, he, Walk.sorted, List.mem_mergeSort,
        Walk.mem_below skip _ e _ hwell]
      constructor
      · rintro ⟨below, bytes, hc, rfl, htype, hskip⟩
        exact ⟨bytes, ⟨place, below, hplace, (hget below).trans hc, rfl⟩, rfl, htype,
          (hexcludes below _ hc).1 hskip⟩
      · obtain ⟨p, size⟩ := f
        rintro ⟨bytes, hholds, rfl, htype, hskip⟩
        obtain ⟨below, hfile, rfl⟩ := (holdsFile_iff_of_resolve hplace).1 hholds
        rw [hget] at hfile
        exact ⟨below, bytes, hfile, rfl, htype, (hexcludes below _ hfile).2 hskip⟩

theorem mem_walk {t : FileTree} (ht : t.root.isWellNamed = true) {names : List Name}
    (hnames : ∀ n ∈ names, Plain n) (skip : SkipNames) (p : Path) :
    p ∈ (t.walk (pathOf names) skip false).map FoundFile.path ↔
      ∃ bytes, t.HoldsFile (pathOf names) p bytes ∧ (FileType.ofPath? p).isSome = true ∧
        skip.excludes (pathOf names) p = false := by
  simp only [List.mem_map, mem_walk_iff ht hnames]
  constructor
  · rintro ⟨f, ⟨bytes, hholds, _, hrest⟩, rfl⟩
    exact ⟨bytes, hholds, hrest⟩
  · rintro ⟨bytes, hholds, hrest⟩
    exact ⟨⟨p, bytes.length⟩, ⟨bytes, hholds, rfl, hrest⟩, rfl⟩

end FileTree
end ProjectIndex
