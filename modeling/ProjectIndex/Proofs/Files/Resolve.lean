import ProjectIndex.Proofs.Files.Places

/-!
Where a path leads. The place a path is resolved to has plain names, so its canonical path spells
it. A path that goes on from another is resolved from the place of the first part; from there, names
of directories and of a file are taken as they stand.
-/
namespace ProjectIndex

theorem Entry.get?_append (e : Entry) (names below : List Name) :
    e.get? (names ++ below) = (e.get? names).bind fun c => c.get? below := by
  induction names generalizing e with
  | nil => rfl
  | cons n names ih =>
    rw [List.cons_append, get?, get?, Option.bind_assoc]
    congr 1
    funext c
    exact ih c

theorem Entry.get?_snoc {e : Entry} {names : List Name} {entries : List (Name × Entry)}
    (h : e.get? names = some (.dir entries)) (n : Name) :
    e.get? (names ++ [n]) = entries.lookup n := by
  rw [get?_append, h, Option.bind_some, get?, child?]
  cases entries.lookup n <;> rfl

theorem Entry.get?_cons_eq_some {e c : Entry} {n : Name} {names : List Name}
    (h : e.get? (n :: names) = some c) :
    ∃ entries d, e = .dir entries ∧ entries.lookup n = some d ∧ d.get? names = some c := by
  rw [get?] at h
  obtain ⟨d, hd, hc⟩ := Option.bind_eq_some_iff.1 h
  cases e with
  | dir entries => exact ⟨entries, d, rfl, hd, hc⟩
  | file bytes => cases hd
  | link target => cases hd

namespace FileTree

variable {t : FileTree}

theorem plain_of_reach {names segments : List Name} (hnames : ∀ n ∈ names, Plain n)
    (hsegments : ∀ n ∈ segments, '/' ∉ n) :
    (∀ out, t.reach names segments = .place out → ∀ n ∈ out, Plain n) ∧
      ∀ out target rest, t.reach names segments = .link out target rest →
        (∀ n ∈ out, Plain n) ∧ ∀ n ∈ rest, '/' ∉ n := by
  induction segments generalizing names with
  | nil =>
    refine ⟨fun out h => ?_, fun out target rest h => ?_⟩
    · cases h
      exact hnames
    · cases h
  | cons segment rest ih =>
    have hrest : ∀ n ∈ rest, '/' ∉ n := fun n hn => hsegments n (List.mem_cons_of_mem _ hn)
    rw [reach]
    split
    · split
      · exact ih hnames hrest
      · next hempty =>
        split
        · exact ih (fun n hn => hnames n (List.dropLast_subset _ hn)) hrest
        · next hdots =>
          have hsegment : Plain segment := by
            simp only [Bool.or_eq_true, decide_eq_true_eq, not_or] at hempty
            exact ⟨hempty.1, hempty.2, hdots, hsegments segment (List.mem_cons_self ..)⟩
          split
          · exact ⟨nofun, nofun⟩
          · split
            · exact ⟨nofun, nofun⟩
            · refine ⟨nofun, fun out target' rest' h => ?_⟩
              cases h
              exact ⟨hnames, hrest⟩
            · refine ih (fun n hn => ?_) hrest
              rcases List.mem_append.1 hn with hn | hn
              · exact hnames n hn
              · exact List.mem_singleton.1 hn ▸ hsegment
    · exact ⟨nofun, nofun⟩
    · exact ⟨nofun, nofun⟩

theorem plain_of_resolveFrom {links : Nat} {names segments place : List Name}
    (hnames : ∀ n ∈ names, Plain n) (hsegments : ∀ n ∈ segments, '/' ∉ n)
    (h : t.resolveFrom links names segments = .ok place) : ∀ n ∈ place, Plain n := by
  induction links generalizing names segments with
  | zero => cases h
  | succ links ih =>
    obtain ⟨hplace, hlink⟩ := plain_of_reach (t := t) hnames hsegments
    rw [resolveFrom] at h
    split at h
    · next out hreach =>
      cases h
      exact hplace place hreach
    · cases h
    · next out target rest hreach =>
      -- A link may lead anywhere, but its target is cut at the slashes as well.
      obtain ⟨hout, hrest⟩ := hlink out target rest hreach
      refine ih ?_ ?_ h
      · split
        · exact fun n hn => absurd hn List.not_mem_nil
        · exact hout
      · intro n hn
        rcases List.mem_append.1 hn with hn | hn
        · exact Text.notMem_of_mem_splitOn hn
        · exact hrest n hn

theorem resolve_eq_ok {p : Path} {place : List Name} (h : t.resolve p = .ok place) :
    t.resolveFrom 41 [] (Text.splitOn '/' p.text) = .ok place := by
  unfold resolve at h
  split at h
  · cases h
  · split at h
    · cases h
    · split at h
      · exact h
      · cases h

theorem canonical?_eq_ok {p q : Path} (h : t.canonical? p = .ok q) :
    ∃ names, (∀ n ∈ names, Plain n) ∧ q = pathOf names := by
  unfold canonical? at h
  cases hresolve : t.resolve p with
  | error e => rw [hresolve] at h; cases h
  | ok names =>
    rw [hresolve] at h
    cases h
    refine ⟨names, ?_, rfl⟩
    exact plain_of_resolveFrom (fun n hn => absurd hn List.not_mem_nil)
      (fun n hn => Text.notMem_of_mem_splitOn hn) (resolve_eq_ok hresolve)

theorem reach_append (t : FileTree) (names segments more : List Name) :
    t.reach names (segments ++ more) =
      match t.reach names segments with
      | .place out => t.reach out more
      | .link out target rest => .link out target (rest ++ more)
      | .error cause => .error cause := by
  induction segments generalizing names with
  | nil => rfl
  | cons segment rest ih =>
    rw [List.cons_append, reach, reach]
    cases hget : t.root.get? names with
    | none => rfl
    | some e =>
      cases e with
      | file bytes => rfl
      | link target => rfl
      | dir entries =>
        dsimp only
        split
        · exact ih names
        · split
          · exact ih names.dropLast
          · split
            · rfl
            · cases hlookup : entries.lookup segment with
              | none => rfl
              | some c =>
                cases c with
                | link target => rfl
                | file bytes => exact ih _
                | dir entries => exact ih _

theorem resolveFrom_append {links : Nat} {names segments place : List Name}
    (h : t.resolveFrom links names segments = .ok place) (more : List Name) :
    ∃ left, t.resolveFrom links names (segments ++ more) = t.resolveFrom (left + 1) place more := by
  induction links generalizing names segments with
  | zero => cases h
  | succ links ih =>
    rw [resolveFrom] at h
    split at h
    · next out hreach =>
      cases h
      refine ⟨links, ?_⟩
      rw [resolveFrom, reach_append, hreach, resolveFrom]
    · cases h
    · next out target rest hreach =>
      obtain ⟨left, hleft⟩ := ih h
      refine ⟨left, ?_⟩
      rw [← hleft, resolveFrom, reach_append, hreach, List.append_assoc]

theorem reach_empty_twice (t : FileTree) (names rest : List Name) :
    t.reach names ([] :: [] :: rest) = t.reach names ([] :: rest) := by
  rw [reach]
  split
  · rfl
  all_goals
    next hget => simp only [reach, hget]

theorem resolveFrom_pathOf {links : Nat} {names below : List Name} (hnames : ∀ n ∈ names, Plain n)
    (hbelow : ∀ n ∈ below, Plain n) :
    t.resolveFrom links [] (Text.splitOn '/' (pathOf (names ++ below)).text) =
      t.resolveFrom links [] (Text.splitOn '/' (pathOf names).text ++ below) := by
  cases names with
  | cons n names =>
    have hall : ∀ m ∈ n :: (names ++ below), Plain m := fun m hm =>
      (List.mem_append.1 hm).elim (hnames m) (hbelow m)
    rw [List.cons_append, splitOn_pathOf hall, splitOn_pathOf hnames]
    rfl
  | nil =>
    cases below with
    | nil => rfl
    | cons n below =>
      rw [List.nil_append, splitOn_pathOf hbelow]
      cases links with
      | zero => rfl
      | succ links =>
        have htwice := t.reach_empty_twice [] (n :: below)
        simp only [resolveFrom]
        rw [← htwice]
        rfl

theorem reach_of_get? {place below : List Name} {bytes : List UInt8}
    (hbelow : ∀ n ∈ below, Plain n) (h : t.root.get? (place ++ below) = some (.file bytes)) :
    t.reach place below =
      if below.any fun n => decide (255 < Text.byteLength n) then .error .nameTooLong
      else .place (place ++ below) := by
  induction below generalizing place with
  | nil =>
    rw [List.append_nil]
    rfl
  | cons n below ih =>
    have hn := hbelow n (List.mem_cons_self ..)
    have hassoc : place ++ n :: below = (place ++ [n]) ++ below := by simp
    obtain ⟨e, hplace, hrest⟩ := Option.bind_eq_some_iff.1 (Entry.get?_append .. ▸ h)
    obtain ⟨entries, d, rfl, hlookup, hd⟩ := Entry.get?_cons_eq_some hrest
    have hgo := ih (fun m hm => hbelow m (List.mem_cons_of_mem _ hm)) (hassoc ▸ h)
    rw [reach, hplace, hassoc, List.any_cons]
    dsimp only
    rw [if_neg (by simp [hn.ne_nil, hn.ne_dot]), if_neg hn.ne_dots]
    by_cases hlong : 255 < Text.byteLength n
    · simp [hlong]
    · rw [if_neg hlong, hlookup, decide_eq_false hlong, Bool.false_or]
      cases d with
      | dir entries => exact hgo
      | file bytes => exact hgo
      | link target =>
        cases below with
        | nil => cases hd
        | cons m below => cases hd

section Descend

variable {names below place : List Name} {bytes : List UInt8} {e : Entry}
  (hnames : ∀ n ∈ names, Plain n) (hbelow : ∀ n ∈ below, Plain n)
  (hplace : t.resolve (pathOf names) = .ok place)
  (hfile : t.root.get? (place ++ below) = some (.file bytes))

include hnames hbelow hplace hfile

theorem resolveFrom_descend :
    t.resolveFrom 41 [] (Text.splitOn '/' ((pathOf names).descend below).text) =
      if below.any fun n => decide (255 < Text.byteLength n) then .error .nameTooLong
      else .ok (place ++ below) := by
  obtain ⟨left, hleft⟩ := resolveFrom_append (resolve_eq_ok hplace) below
  rw [descend_pathOf hnames hbelow, resolveFrom_pathOf hnames hbelow, hleft, resolveFrom,
    reach_of_get? hbelow hfile]
  cases below.any fun n => decide (255 < Text.byteLength n) <;> rfl

theorem find_descend (hfind : t.find ((pathOf names).descend below) = .ok e) : e = .file bytes := by
  unfold find at hfind
  split at hfind
  · cases hfind
  · next out hout =>
    have hresolved := resolve_eq_ok hout
    rw [resolveFrom_descend hnames hbelow hplace hfile] at hresolved
    split at hresolved
    · cases hresolved
    · cases hresolved
      rw [hfile] at hfind
      cases hfind
      rfl

/-- Whether a file can be opened is decided by its path: where it could be once, it can be in any
other tree that has a file there. -/
theorem find_descend_of_find {t' : FileTree} {place' : List Name} {bytes' : List UInt8}
    (hplace' : t'.resolve (pathOf names) = .ok place')
    (hfile' : t'.root.get? (place' ++ below) = some (.file bytes'))
    (hfind : t.find ((pathOf names).descend below) = .ok e) :
    t'.find ((pathOf names).descend below) = .ok (.file bytes') := by
  have hresolve : t'.resolve ((pathOf names).descend below) = .ok (place' ++ below) := by
    have hhere := resolveFrom_descend hnames hbelow hplace hfile
    have hthere := resolveFrom_descend hnames hbelow hplace' hfile'
    unfold find resolve at hfind
    unfold resolve
    split at hfind
    · cases hfind
    · next out hout =>
      split at hout
      · cases hout
      · next hzero =>
        split at hout
        · cases hout
        · next hshort =>
          split at hout
          · next habsolute =>
            rw [hhere] at hout
            split at hout
            · cases hout
            · next hnames' =>
              rw [if_neg hzero, if_neg hshort, if_pos habsolute, hthere, if_neg hnames']
          · cases hout
  unfold find
  rw [hresolve]
  dsimp only
  rw [hfile']

end Descend

end FileTree
end ProjectIndex
