import ProjectIndex.Proofs.Files.Entries
import ProjectIndex.Proofs.Files.Listing

/-!
What an edit of one file leaves of the rest. Writing a file or deleting it changes nothing at any
other place, so every path that led to another file or to a directory still leads there.
-/
namespace ProjectIndex

namespace FileTree

open Entry

section Resolution

variable {t t' : FileTree} {x : List Name}

/-- Whether a way leads to a link, or to another place than the one given. -/
def Reach.LeadsOff (x : List Name) : Reach → Prop
  | .place out => out ≠ x
  | .link .. => True
  | .error _ => False

theorem exists_dir_of_reach {names rest : List Name} {segment : Name}
    (h : ∀ cause, t.reach names (segment :: rest) ≠ .error cause) :
    ∃ entries, t.root.get? names = some (.dir entries) := by
  rw [reach] at h
  split at h
  · next entries hget => exact ⟨entries, hget⟩
  · exact absurd rfl (h _)
  · exact absurd rfl (h _)

theorem not_leadsOff_reach (hx : ∀ e, t.root.get? x = some e → e.isFile = true)
    (segments : List Name) : ¬ (t.reach x segments).LeadsOff x := by
  intro hleads
  cases segments with
  | nil => exact hleads rfl
  | cons segment rest =>
    obtain ⟨entries, hget⟩ := exists_dir_of_reach fun cause (herror : _ = _) => by
      rw [herror] at hleads
      exact hleads
    cases hx _ hget

section Beside

variable (h : Beside x (some t.root) (some t'.root))
  (hx : ∀ e, t.root.get? x = some e → e.isFile = true)

include h hx

theorem reach_beside_one {names : List Name} {segment : Name}
    (hleads : (t.reach names [segment]).LeadsOff x) :
    t'.reach names [segment] = t.reach names [segment] := by
  obtain ⟨entries, hget⟩ := exists_dir_of_reach fun cause (herror : _ = _) => by
    rw [herror] at hleads
    exact hleads
  have hne {e : Entry} {names : List Name} (he : t.root.get? names = some e)
      (hkind : e.isFile = false) : names ≠ x := by
    rintro rfl
    exact absurd (hx e he) (by simp [hkind])
  obtain ⟨entries', hget'⟩ := h.dir names entries (hne hget rfl) hget
  have hget' : t'.root.get? names = some (.dir entries') := hget'
  have hchild := get?_snoc hget segment
  have hchild' := get?_snoc hget' segment
  rw [reach, hget] at hleads
  rw [reach, hget']
  conv_rhs => rw [reach, hget]
  dsimp only at hleads ⊢
  split
  · rfl
  · next hstay =>
    split
    · rfl
    · next hup =>
      split
      · rfl
      · next hshort =>
        rw [if_neg hstay, if_neg hup, if_neg hshort] at hleads
        cases hlookup : entries.lookup segment with
        | none =>
          rw [hlookup] at hleads
          exact hleads.elim
        | some c =>
          rw [hlookup] at hchild hleads
          -- Links and files stand as they stood; of a directory only what is in it can differ.
          cases c with
          | link target =>
            have hlink := (h.link _ target (hne hchild rfl)).2 hchild
            rw [hchild'.symm.trans hlink]
          | file bytes =>
            have hfile := (h.file _ bytes hleads).2 hchild
            rw [hchild'.symm.trans hfile]
            rfl
          | dir inner =>
            obtain ⟨inner', hdir⟩ := h.dir _ inner (hne hchild rfl) hchild
            rw [hchild'.symm.trans hdir]
            rfl

/-- A way through the tree that does not end at the changed place is still there. -/
theorem reach_beside {names segments : List Name}
    (hleads : (t.reach names segments).LeadsOff x) :
    t'.reach names segments = t.reach names segments := by
  induction segments generalizing names with
  | nil => rfl
  | cons segment rest ih =>
    rw [← List.singleton_append, reach_append] at hleads ⊢
    rw [reach_append]
    cases hone : t.reach names [segment] with
    | error cause =>
      rw [hone] at hleads
      exact hleads.elim
    | link out target rest' => rw [reach_beside_one h hx (by rw [hone]; trivial), hone]
    | place out =>
      rw [hone] at hleads
      -- From the changed place the way does not go on.
      have hout : out ≠ x := by
        rintro rfl
        exact not_leadsOff_reach hx rest hleads
      rw [reach_beside_one h hx (by rw [hone]; exact hout), hone]
      exact ih hleads

theorem resolveFrom_beside {links : Nat} {names segments out : List Name}
    (hout : t.resolveFrom links names segments = .ok out) (hne : out ≠ x) :
    t'.resolveFrom links names segments = .ok out := by
  induction links generalizing names segments with
  | zero => cases hout
  | succ links ih =>
    rw [resolveFrom] at hout ⊢
    have hreach : (t.reach names segments).LeadsOff x →
        t'.reach names segments = t.reach names segments := reach_beside h hx
    split at hout
    · next names' hway =>
      cases hout
      rw [hreach (by rw [hway]; exact hne), hway]
    · cases hout
    · next names' target rest hway =>
      rw [hreach (by rw [hway]; trivial), hway]
      exact ih hout

theorem resolve_beside {p : Path} {out : List Name} (hout : t.resolve p = .ok out) (hne : out ≠ x) :
    t'.resolve p = .ok out := by
  have hfrom := resolveFrom_beside h hx (resolve_eq_ok hout) hne
  unfold resolve at hout ⊢
  split at hout
  · cases hout
  · next hzero =>
    split at hout
    · cases hout
    · next hlong =>
      split at hout
      · next habsolute => rw [if_neg hzero, if_neg hlong, if_pos habsolute, hfrom]
      · cases hout

theorem find_beside {p : Path} {names : List Name} {bytes : List UInt8} (hne : names ≠ x)
    (hresolve : t.resolve p = .ok names) (hget : t.root.get? names = some (.file bytes)) :
    t'.find p = .ok (.file bytes) := by
  have hget' : t'.root.get? names = some (.file bytes) := (h.file _ bytes hne).2 hget
  rw [find, resolve_beside h hx hresolve hne]
  dsimp only
  rw [hget']

end Beside

theorem resolveFrom_mono {links more : Nat} (hle : links ≤ more) {names segments out : List Name}
    (h : t.resolveFrom links names segments = .ok out) :
    t.resolveFrom more names segments = .ok out := by
  induction links generalizing more names segments with
  | zero => cases h
  | succ links ih =>
    obtain ⟨more, rfl⟩ := Nat.exists_eq_add_of_le' hle
    rw [resolveFrom] at h
    rw [← Nat.add_assoc, resolveFrom]
    split at h
    · exact h
    · cases h
    · exact ih (Nat.le_add_left ..) h

theorem resolveFrom_of_append {links : Nat} {names segments more out : List Name}
    (h : t.resolveFrom links names (segments ++ more) = .ok out) :
    ∃ mid left, left < links ∧ t.resolveFrom links names segments = .ok mid ∧
      t.resolveFrom (left + 1) mid more = .ok out := by
  induction links generalizing names segments with
  | zero => cases h
  | succ links ih =>
    rw [resolveFrom, reach_append] at h
    rw [resolveFrom]
    cases hreach : t.reach names segments with
    | place mid =>
      rw [hreach] at h
      exact ⟨mid, links, Nat.lt_succ_self _, rfl, by rw [resolveFrom]; exact h⟩
    | error cause =>
      rw [hreach] at h
      cases h
    | link names' target rest =>
      rw [hreach] at h
      dsimp only at h ⊢
      rw [← List.append_assoc] at h
      obtain ⟨mid, left, hleft, hmid, hrest⟩ := ih h
      exact ⟨mid, left, Nat.lt_succ_of_lt hleft, hmid, hrest⟩

theorem step_of_resolveFrom {links : Nat} (hlinks : links ≤ 41) {names mid : List Name}
    {segment : Name} (h : t.resolveFrom links names [segment] = .ok mid) :
    t.step names segment = mid := by
  have hmore := resolveFrom_mono hlinks h
  obtain ⟨entries, hget⟩ := exists_dir_of_reach fun cause (herror : _ = _) => by
    rw [resolveFrom, herror] at hmore
    cases hmore
  unfold step
  rw [hmore]
  dsimp only
  rw [resolveFrom, reach, hget] at hmore
  dsimp only at hmore
  split
  · next hstay =>
    rw [if_pos hstay] at hmore
    exact Except.ok.inj hmore
  · next hstay =>
    split
    · next hup =>
      rw [if_neg hstay, if_pos hup] at hmore
      exact Except.ok.inj hmore
    · rfl

theorem foldl_step_of_resolveFrom {links : Nat} (hlinks : links ≤ 41)
    {names segments out : List Name} (h : t.resolveFrom links names segments = .ok out) :
    segments.foldl t.step names = out := by
  induction segments generalizing links names with
  | nil =>
    cases links with
    | zero => cases h
    | succ links =>
      rw [resolveFrom, reach] at h
      exact Except.ok.inj h
  | cons segment rest ih =>
    obtain ⟨mid, left, hleft, hmid, hrest⟩ := resolveFrom_of_append (List.singleton_append ▸ h)
    rw [List.foldl_cons, step_of_resolveFrom hlinks hmid]
    exact ih (Nat.le_trans hleft hlinks) hrest

def Direct (t : FileTree) (place below : List Name) : Prop :=
  ∀ above target, above <+: below → t.root.get? (place ++ above) ≠ some (.link target)

theorem Direct.tail {place below : List Name} {n : Name} (h : t.Direct place (n :: below)) :
    t.Direct (place ++ [n]) below := by
  intro above target habove
  rw [List.append_assoc]
  exact h (n :: above) target (List.cons_prefix_cons.2 ⟨rfl, habove⟩)

theorem reach_plain {place below : List Name} (hbelow : ∀ n ∈ below, Plain n)
    (h : t.Direct place below) :
    t.reach place below = .place (place ++ below) ∨ ∃ cause, t.reach place below = .error cause := by
  induction below generalizing place with
  | nil => exact .inl (by rw [List.append_nil]; rfl)
  | cons n below ih =>
    obtain ⟨hn, hrest⟩ := List.forall_mem_cons.1 hbelow
    have hnext := ih hrest h.tail
    rw [List.append_assoc] at hnext
    cases hget : t.root.get? place with
    | none => exact .inr ⟨.notFound, by rw [reach, hget]⟩
    | some e =>
      cases e with
      | file bytes => exact .inr ⟨.notDirectory, by rw [reach, hget]⟩
      | link target => exact .inr ⟨.notDirectory, by rw [reach, hget]⟩
      | dir entries =>
        have hchild := get?_snoc hget n
        rw [reach, hget]
        dsimp only
        rw [if_neg (by simp [hn.ne_nil, hn.ne_dot]), if_neg hn.ne_dots]
        split
        · exact .inr ⟨_, rfl⟩
        · cases hlookup : entries.lookup n with
          | none => exact .inr ⟨_, rfl⟩
          | some c =>
            cases c with
            | link target =>
              have hlink := hchild.trans hlookup
              exact absurd hlink (h [n] target (by simp))
            | file bytes => exact hnext
            | dir inner => exact hnext

theorem foldl_step_plain {place below : List Name} (hbelow : ∀ n ∈ below, Plain n)
    (h : t.Direct place below) : below.foldl t.step place = place ++ below := by
  induction below generalizing place with
  | nil => rw [List.append_nil]; rfl
  | cons n below ih =>
    obtain ⟨hn, hrest⟩ := List.forall_mem_cons.1 hbelow
    have hstep : t.step place n = place ++ [n] := by
      have hdirect : t.Direct place [n] := fun above target habove =>
        h above target (habove.trans (List.cons_prefix_cons.2 ⟨rfl, List.nil_prefix⟩))
      unfold step
      rw [if_neg (by simp [hn.ne_nil, hn.ne_dot]), if_neg hn.ne_dots, resolveFrom]
      rcases reach_plain (List.forall_mem_singleton.2 hn) hdirect with hreach | ⟨cause, hreach⟩
      · rw [hreach]
      · rw [hreach]
    rw [List.foldl_cons, hstep, ih hrest h.tail, List.append_assoc]
    rfl

theorem placeOf_descend {place start below : List Name} (hplace : ∀ n ∈ place, Plain n)
    (hbelow : ∀ n ∈ below, Plain n) (hstart : t.resolve (pathOf place) = .ok start)
    (h : t.Direct start below) : t.placeOf ((pathOf place).descend below) = start ++ below := by
  have hroot : (Text.splitOn '/' (pathOf place).text).foldl t.step [] = start :=
    foldl_step_of_resolveFrom (Nat.le_refl 41) (resolve_eq_ok hstart)
  have hstay : ∀ names, t.step names [] = names := fun names => by simp [step]
  have hsplit : (Text.splitOn '/' (pathOf (place ++ below)).text).foldl t.step [] =
      below.foldl t.step ((Text.splitOn '/' (pathOf place).text).foldl t.step []) := by
    cases place with
    | cons n place =>
      have hall : ∀ m ∈ n :: (place ++ below), Plain m := fun m hm =>
        (List.mem_append.1 hm).elim (hplace m) (hbelow m)
      rw [List.cons_append, splitOn_pathOf hall, splitOn_pathOf hplace, ← List.foldl_append]
      rfl
    | nil =>
      cases below with
      | nil => rfl
      | cons n below =>
        rw [List.nil_append, splitOn_pathOf hbelow]
        have hslash : (Text.splitOn '/' (pathOf []).text).foldl t.step [] = [] := by
          change t.step (t.step [] []) [] = []
          rw [hstay, hstay]
        rw [hslash, List.foldl_cons, hstay]
  rw [placeOf, descend_pathOf hplace hbelow, hsplit, hroot, foldl_step_plain hbelow h]

theorem joinWith_slash (names : List Name) :
    '/' :: Text.joinWith ['/'] names = (pathOf names).text := by
  cases names with
  | nil => rfl
  | cons n names =>
    change _ = (n :: names).flatMap fun n => '/' :: n
    induction names generalizing n with
    | nil => simp [Text.joinWith]
    | cons m names ih =>
      rw [List.flatMap_cons, ← ih m]
      simp [Text.joinWith]

theorem parent?_pathOf {names : List Name} (hnames : ∀ m ∈ names, Plain m) {n : Name}
    (hn : Plain n) : (pathOf (names ++ [n])).parent? = some (pathOf names) := by
  have hall : ∀ m ∈ names ++ [n], Plain m := Walk.plain_snoc hnames hn
  have hbody : Text.splitOn '/' (pathOf (names ++ [n])).headAndBody.2 = names ++ [n] := by
    cases names with
    | nil =>
      change Text.splitOn '/' (n ++ []) = [n]
      rw [List.append_nil, Text.splitOn_of_notMem hn.no_slash]
    | cons m names =>
      exact Text.splitOn_slashed (fun k hk => (hall k (List.mem_cons_of_mem _ hk)).no_slash)
        (hall m (List.mem_cons_self ..)).no_slash
  have hhead : (pathOf (names ++ [n])).headAndBody.1 = ['/'] := by cases names <;> rfl
  have hkeep : ∀ names : List Name, (∀ m ∈ names, Plain m) → Path.dropEmptySegments names = names := by
    intro names hnames
    unfold Path.dropEmptySegments
    cases hreverse : names.reverse with
    | nil => exact (List.reverse_eq_nil_iff.1 hreverse).symm
    | cons m rest =>
      have hm : Plain m := hnames m (by rw [← List.mem_reverse, hreverse]; exact List.mem_cons_self ..)
      rw [List.dropWhile_cons, Path.segmentComponent?_of_plain hm, if_neg (by simp), ← hreverse,
        List.reverse_reverse]
  unfold Path.parent?
  rw [hbody, hhead, hkeep _ hall]
  dsimp only
  rw [if_neg (by simp), List.dropLast_concat, hkeep _ hnames, List.singleton_append, joinWith_slash]

theorem fileName?_pathOf {names : List Name} (hnames : ∀ m ∈ names, Plain m) {n : Name}
    (hn : Plain n) : (pathOf (names ++ [n])).fileName? = some n := by
  unfold Path.fileName?
  rw [components_pathOf (Walk.plain_snoc hnames hn), List.map_append, ← List.cons_append,
    List.map_singleton, List.getLast?_concat]

end Resolution

theorem doesExist_iff {t : FileTree} {p : Path} :
    t.doesExist p = true ↔ ∃ e, t.find p = .ok e := by
  unfold doesExist
  cases t.find p with
  | error cause => exact ⟨nofun, nofun⟩
  | ok e => exact ⟨fun _ => ⟨e, rfl⟩, fun _ => rfl⟩

/-- A path that goes down from the root by plain names, at least one, and the place it names. -/
def LiesAt (t : FileTree) (root p : Path) (x : List Name) : Prop :=
  ∃ start below, t.resolve root = .ok start ∧ (∀ n ∈ below, Plain n) ∧ below ≠ [] ∧
    p = root.descend below ∧ x = start ++ below

/-- Whether a file can be written: nothing but directories stands above its place, and nothing but a
file at it. -/
def HasRoom (t : FileTree) (root p : Path) : Prop :=
  ∃ x, t.LiesAt root p x ∧ Free (some t.root) x

/-- All files below the root but the one of a path are as they were, and can be opened as before. -/
structure Spares (root p : Path) (t t' : FileTree) : Prop where
  isWellNamed : t'.root.isWellNamed = true
  holdsFile : ∀ q bytes, q ≠ p → (t'.HoldsFile root q bytes ↔ t.HoldsFile root q bytes)
  find : ∀ q bytes, q ≠ p → t.HoldsFile root q bytes → (∃ e, t.find q = .ok e) →
    ∃ e, t'.find q = .ok e
  linkFree : t.LinkFree root → t'.LinkFree root

theorem direct_of_free {t : FileTree} {x : List Name} (h : Free (some t.root) x) :
    t.Direct [] x := by
  intro above target habove hlink
  have hkind := h _ _ habove hlink
  split at hkind <;> cases hkind

theorem Direct.below {t : FileTree} {start below : List Name} (h : t.Direct [] (start ++ below)) :
    t.Direct start below := fun above target habove =>
  h (start ++ above) target ((List.prefix_append_right_inj start).2 habove)

theorem LiesAt.spelled {t : FileTree} {root p : Path} {x : List Name} (h : t.LiesAt root p x) :
    Spelled root p := by
  obtain ⟨_, below, _, hbelow, _, hpath, _⟩ := h
  exact ⟨below, hbelow, hpath⟩

theorem LiesAt.plain {t : FileTree} {root p : Path} {x : List Name} (h : t.LiesAt root p x) :
    ∀ n ∈ x, Plain n := by
  obtain ⟨start, below, hstart, hbelow, _, _, rfl⟩ := h
  have hresolved := plain_of_resolveFrom (fun n hn => absurd hn List.not_mem_nil)
    (fun n hn => Text.notMem_of_mem_splitOn hn) (resolve_eq_ok hstart)
  exact fun n hn => (List.mem_append.1 hn).elim (hresolved n) (hbelow n)

section Edits

variable {t : FileTree} {place x : List Name} {p : Path} (hplace : ∀ n ∈ place, Plain n)

include hplace

theorem resolve_descend {start below out : List Name} (hbelow : ∀ n ∈ below, Plain n)
    (hstart : t.resolve (pathOf place) = .ok start) (hdirect : t.Direct start below)
    (h : t.resolve ((pathOf place).descend below) = .ok out) : out = start ++ below := by
  obtain ⟨left, hleft⟩ := resolveFrom_append (resolve_eq_ok hstart) below
  have hresolved := resolve_eq_ok h
  rw [descend_pathOf hplace hbelow, resolveFrom_pathOf hplace hbelow, hleft, resolveFrom]
    at hresolved
  rcases reach_plain hbelow hdirect with hreach | ⟨cause, hreach⟩
  · rw [hreach] at hresolved
    exact (Except.ok.inj hresolved).symm
  · rw [hreach] at hresolved
    cases hresolved

theorem get?_of_find_descend {start below : List Name} (hbelow : ∀ n ∈ below, Plain n)
    (hstart : t.resolve (pathOf place) = .ok start) (hdirect : t.Direct start below) {e : Entry}
    (hfind : t.find ((pathOf place).descend below) = .ok e) :
    t.resolve ((pathOf place).descend below) = .ok (start ++ below) ∧
      t.root.get? (start ++ below) = some e := by
  unfold find at hfind
  split at hfind
  · cases hfind
  · next out hout =>
    obtain rfl := resolve_descend hplace hbelow hstart hdirect hout
    split at hfind
    · next hget => exact ⟨hout, by rw [hget, Except.ok.inj hfind]⟩
    · cases hfind

theorem LiesAt.get?_of_find (h : t.LiesAt (pathOf place) p x) (hdirect : t.Direct [] x)
    {e : Entry} (hfind : t.find p = .ok e) : t.root.get? x = some e := by
  obtain ⟨start, below, hstart, hbelow, _, rfl, rfl⟩ := h
  exact (get?_of_find_descend hplace hbelow hstart hdirect.below hfind).2

theorem LiesAt.holdsFile_iff (h : t.LiesAt (pathOf place) p x) (hwell : t.root.isWellNamed = true)
    {bytes : List UInt8} :
    t.HoldsFile (pathOf place) p bytes ↔ t.root.get? x = some (.file bytes) := by
  obtain ⟨start, below, hstart, hbelow, _, rfl, rfl⟩ := h
  rw [holdsFile_iff_of_resolve hstart]
  refine ⟨?_, fun hget => ⟨below, hget, rfl⟩⟩
  rintro ⟨below', hget, hpath⟩
  have hbelow' : ∀ n ∈ below', Plain n := fun n hn =>
    (plain_of_get? hwell hget).1 n (List.mem_append_right _ hn)
  rw [descend_inj hplace hbelow hbelow' hpath]
  exact hget

theorem LiesAt.holdsFile_of_doesExist (h : t.LiesAt (pathOf place) p x)
    (hwell : t.root.isWellNamed = true) (hfree : Free (some t.root) x)
    (hexists : t.doesExist p = true) : ∃ bytes, t.HoldsFile (pathOf place) p bytes := by
  obtain ⟨e, he⟩ := doesExist_iff.1 hexists
  have hget := h.get?_of_find hplace (direct_of_free hfree) he
  have hisFile : e.isFile = true := by simpa using hfree x e (List.prefix_refl x) hget
  cases e with
  | file bytes => exact ⟨bytes, (h.holdsFile_iff hplace hwell).2 hget⟩
  | link target => cases hisFile
  | dir entries => cases hisFile

theorem LiesAt.spares (h : t.LiesAt (pathOf place) p x) (hfree : Free (some t.root) x)
    {t' : FileTree} (hbeside : Beside x (some t.root) (some t'.root))
    (hafter : ∀ e, t'.root.get? x = some e → e.isFile = true)
    (hwell : t.root.isWellNamed = true) (hwell' : t'.root.isWellNamed = true) :
    Spares (pathOf place) p t t' ∧ t'.LiesAt (pathOf place) p x ∧ t'.Direct [] x := by
  have hbefore : ∀ e, t.root.get? x = some e → e.isFile = true := fun e he => by
    simpa using hfree x e (List.prefix_refl x) he
  -- No link has come up, since what stands at the place afterwards is a file.
  have hlink : ∀ names target, t'.root.get? names = some (.link target) →
      t.root.get? names = some (.link target) := by
    intro names target hlink
    refine (hbeside.link names target ?_).1 hlink
    rintro rfl
    cases hafter _ hlink
  have hdirect' : t'.Direct [] x := fun above target habove hmet =>
    direct_of_free hfree above target habove (hlink _ target hmet)
  obtain ⟨start, below, hstart, hbelow, hne, rfl, rfl⟩ := h
  have hoff : start ≠ start ++ below := fun hsame => hne (List.self_eq_append_right.1 hsame)
  have hstart' := resolve_beside hbeside hbefore hstart hoff
  have hother : ∀ others, (pathOf place).descend others ≠ (pathOf place).descend below →
      start ++ others ≠ start ++ below := fun others hpath hsame =>
    hpath (by rw [List.append_cancel_left hsame])
  have hspares : Spares (pathOf place) ((pathOf place).descend below) t t' := by
    refine ⟨hwell', fun q bytes hq => ?_, fun q bytes hq hholds hfind => ?_, fun hlinks => ?_⟩
    · rw [holdsFile_iff_of_resolve hstart, holdsFile_iff_of_resolve hstart']
      refine exists_congr fun others => and_congr_left ?_
      rintro rfl
      exact hbeside.file _ bytes (hother others hq)
    · obtain ⟨others, hget, rfl⟩ := (holdsFile_iff_of_resolve hstart).1 hholds
      have hothers : ∀ n ∈ others, Plain n := fun n hn =>
        (plain_of_get? hwell hget).1 n (List.mem_append_right _ hn)
      obtain ⟨e, he⟩ := hfind
      have hresolve := (get?_of_find_descend hplace hothers hstart
        (direct_of_free (free_of_file hget)).below he).1
      exact ⟨_, find_beside hbeside hbefore (hother others hq) hresolve hget⟩
    · intro start'' others target hstart'' hmet
      obtain rfl := Except.ok.inj (hstart'.symm.trans hstart'')
      exact hlinks start others target hstart (hlink _ target hmet)
  exact ⟨hspares, ⟨start, below, hstart', hbelow, hne, rfl, rfl⟩, hdirect'⟩

theorem LiesAt.write (h : t.LiesAt (pathOf place) p x) (hwell : t.root.isWellNamed = true)
    (hfree : Free (some t.root) x) (bytes : List UInt8) :
    (Spares (pathOf place) p t (t.write p bytes) ∧
      (t.write p bytes).LiesAt (pathOf place) p x ∧ (t.write p bytes).Direct [] x) ∧
      (t.write p bytes).root.get? x = some (.file bytes) := by
  have hput : t.write p bytes = { t with root := t.root.put x (.file bytes) } := by
    obtain ⟨start, below, hstart, hbelow, _, rfl, rfl⟩ := h
    rw [FileTree.write, placeOf_descend hplace hbelow hstart (direct_of_free hfree).below]
  obtain ⟨hbeside, hlook⟩ := beside_put hfree bytes
  rw [hput]
  refine ⟨h.spares hplace hfree hbeside (fun e he => ?_) hwell
    (isWellNamed_put h.plain rfl hwell), hlook⟩
  have hfile := hlook.symm.trans he
  exact Option.some.inj hfile ▸ rfl

theorem LiesAt.delete (h : t.LiesAt (pathOf place) p x) (hwell : t.root.isWellNamed = true)
    {bytes : List UInt8} (hfile : t.root.get? x = some (.file bytes)) :
    t.placeOfEntry p = x ∧
      (Spares (pathOf place) p t (t.delete p) ∧
        (t.delete p).LiesAt (pathOf place) p x ∧ (t.delete p).Direct [] x) ∧
      (t.delete p).root.get? x = none := by
  have hfree := free_of_file hfile
  have hentry : t.placeOfEntry p = x ∧ x ≠ [] := by
    obtain ⟨start, below, hstart, hbelow, hne, rfl, rfl⟩ := h
    obtain ⟨above, n, rfl⟩ := (List.eq_nil_or_concat' below).resolve_left hne
    have habove : ∀ m ∈ above, Plain m := fun m hm => hbelow m (List.mem_append_left _ hm)
    have hn : Plain n := hbelow n (by simp)
    have hall : ∀ m ∈ place ++ above, Plain m := fun m hm =>
      (List.mem_append.1 hm).elim (hplace m) (habove m)
    have hdirect : t.Direct start above := fun names target hnames =>
      (direct_of_free hfree).below names target (hnames.trans (List.prefix_append above [n]))
    have hpath : (pathOf place).descend (above ++ [n]) = pathOf (place ++ above ++ [n]) := by
      rw [descend_pathOf hplace hbelow, List.append_assoc]
    refine ⟨?_, by simp⟩
    unfold placeOfEntry
    rw [hpath, parent?_pathOf hall hn, fileName?_pathOf hall hn]
    dsimp only
    rw [← descend_pathOf hplace habove, placeOf_descend hplace habove hstart hdirect,
      List.append_assoc]
  obtain ⟨hbeside, hgone⟩ := beside_remove hentry.2 hfile
  have hremove : t.delete p = { t with root := t.root.remove x } := by rw [FileTree.delete, hentry.1]
  rw [hremove]
  refine ⟨hentry.1, h.spares hplace hfree hbeside (fun e he => ?_) hwell
    (isWellNamed_remove x hwell), hgone⟩
  cases hgone.symm.trans he

end Edits

end FileTree
end ProjectIndex
