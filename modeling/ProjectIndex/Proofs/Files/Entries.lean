import ProjectIndex.Files.Edit
import ProjectIndex.Proofs.Files.Walk

/-!
Putting an entry into a tree and taking one out. The names stay what they were, and nothing changes
at any other place, except that directories may come up above what is put in.
-/
namespace ProjectIndex

namespace Entry

theorem lookup_cons_eq (k : Name) (e : Entry) (rest : List (Name × Entry)) (m : Name) :
    ((k, e) :: rest).lookup m = if m = k then some e else rest.lookup m := by
  rw [List.lookup_cons]
  by_cases hmk : m = k
  · simp [hmk]
  · rw [if_neg hmk, beq_eq_false_iff_ne.2 hmk]

theorem lookup_putChild (n : Name) (c : Entry) (entries : List (Name × Entry)) (m : Name) :
    (putChild n c entries).lookup m = if m = n then some c else entries.lookup m := by
  induction entries with
  | nil => exact lookup_cons_eq n c [] m
  | cons d rest ih =>
    obtain ⟨k, e⟩ := d
    rw [putChild, lookup_cons_eq]
    by_cases hkn : k = n
    · subst hkn
      rw [if_pos rfl, lookup_cons_eq]
      split <;> rfl
    · rw [if_neg hkn, lookup_cons_eq, ih]
      by_cases hmk : m = k
      · rw [if_pos hmk, if_pos hmk, if_neg (hmk ▸ hkn)]
      · rw [if_neg hmk, if_neg hmk]

theorem lookup_filter_ne (n : Name) (entries : List (Name × Entry)) (m : Name) :
    (entries.filter fun c => c.1 != n).lookup m = if m = n then none else entries.lookup m := by
  induction entries with
  | nil => simp
  | cons d rest ih =>
    obtain ⟨k, e⟩ := d
    rw [List.filter_cons, lookup_cons_eq]
    by_cases hkn : k = n
    · subst hkn
      rw [if_neg (by simp), ih]
      split <;> rfl
    · rw [if_pos (by simpa using hkn), lookup_cons_eq, ih]
      by_cases hmk : m = k
      · rw [if_pos hmk, if_pos hmk, if_neg (hmk ▸ hkn)]
      · rw [if_neg hmk, if_neg hmk]

theorem mem_putChild {n : Name} {c : Entry} {entries : List (Name × Entry)} {d : Name × Entry}
    (h : d ∈ putChild n c entries) : d.1 = n ∨ d ∈ entries := by
  induction entries with
  | nil => exact .inl (List.mem_singleton.1 h ▸ rfl)
  | cons f rest ih =>
    obtain ⟨m, g⟩ := f
    rw [putChild] at h
    split at h
    · next hmn =>
      rcases List.mem_cons.1 h with rfl | hd
      · exact .inl hmn
      · exact .inr (List.mem_cons_of_mem _ hd)
    · rcases List.mem_cons.1 h with rfl | hd
      · exact .inr (List.mem_cons_self ..)
      · exact (ih hd).imp_right (List.mem_cons_of_mem _)

theorem areWellNamed_putChild {n : Name} (hn : Plain n) {c : Entry} (hc : c.isWellNamed = true)
    {entries : List (Name × Entry)} (h : areWellNamed entries = true) :
    areWellNamed (putChild n c entries) = true := by
  induction entries with
  | nil => simp [putChild, areWellNamed, hn, hc]
  | cons d rest ih =>
    obtain ⟨k, e⟩ := d
    obtain ⟨⟨hk, hdiffer⟩, he, hrest⟩ := areWellNamed_cons.1 h
    rw [putChild]
    split
    · exact areWellNamed_cons.2 ⟨⟨hk, hdiffer⟩, hc, hrest⟩
    · next hkn =>
      refine areWellNamed_cons.2 ⟨⟨hk, fun d hd => ?_⟩, he, ih hrest⟩
      rcases mem_putChild hd with hdn | hd
      · exact hdn ▸ Ne.symm hkn
      · exact hdiffer d hd

theorem areWellNamed_filter (keep : Name × Entry → Bool) {entries : List (Name × Entry)}
    (h : areWellNamed entries = true) : areWellNamed (entries.filter keep) = true := by
  induction entries with
  | nil => rfl
  | cons d rest ih =>
    obtain ⟨⟨hk, hdiffer⟩, he, hrest⟩ := areWellNamed_cons.1 h
    rw [List.filter_cons]
    split
    · exact areWellNamed_cons.2
        ⟨⟨hk, fun c hc => hdiffer c (List.mem_filter.1 hc).1⟩, he, ih hrest⟩
    · exact ih hrest

theorem isWellNamed_put {x : List Name} (hx : ∀ n ∈ x, Plain n) {c : Entry}
    (hc : c.isWellNamed = true) {e : Entry} (he : e.isWellNamed = true) :
    (e.put x c).isWellNamed = true := by
  induction x generalizing e with
  | nil =>
    cases e <;> exact hc
  | cons n ns ih =>
    obtain ⟨hn, hns⟩ := List.forall_mem_cons.1 hx
    have hblank : (Entry.dir []).isWellNamed = true := rfl
    cases e with
    | dir entries =>
      rw [isWellNamed] at he
      rw [put, isWellNamed]
      refine areWellNamed_putChild hn (ih hns ?_) he
      cases hlookup : entries.lookup n with
      | none => exact hblank
      | some d => exact (wellNamed_of_mem he ((lookup_eq_some he).1 hlookup)).2
    | file bytes => simp [put, isWellNamed, areWellNamed, hn, ih hns hblank]
    | link target => simp [put, isWellNamed, areWellNamed, hn, ih hns hblank]

theorem isWellNamed_remove (x : List Name) {e : Entry} (he : e.isWellNamed = true) :
    (e.remove x).isWellNamed = true := by
  induction x generalizing e with
  | nil => cases e <;> exact he
  | cons n ns ih =>
    cases e with
    | file bytes => rfl
    | link target => rfl
    | dir entries =>
      have hentries : areWellNamed entries = true := by rwa [isWellNamed] at he
      cases ns with
      | nil =>
        rw [remove, isWellNamed]
        exact areWellNamed_filter _ hentries
      | cons k ns =>
        rw [remove]
        split
        · next c hlookup =>
          obtain ⟨hn, hc⟩ := wellNamed_of_mem hentries ((lookup_eq_some hentries).1 hlookup)
          rw [isWellNamed]
          exact areWellNamed_putChild hn (ih hc) hentries
        · exact he
        · exact nofun

def look (o : Option Entry) (names : List Name) : Option Entry := o.bind fun e => e.get? names

theorem look_cons (o : Option Entry) (n : Name) (names : List Name) :
    look o (n :: names) = look (o.bind fun e => e.child? n) names := by
  cases o <;> rfl

theorem look_nil (o : Option Entry) : look o [] = o := by cases o <;> rfl

/-- Nothing changed but at one place, and that directories may have come up. -/
structure Beside (x : List Name) (o o' : Option Entry) : Prop where
  file : ∀ names bytes, names ≠ x →
    (look o' names = some (.file bytes) ↔ look o names = some (.file bytes))
  link : ∀ names target, names ≠ x →
    (look o' names = some (.link target) ↔ look o names = some (.link target))
  dir : ∀ names entries, names ≠ x → look o names = some (.dir entries) →
    ∃ entries', look o' names = some (.dir entries')

def Free (o : Option Entry) (x : List Name) : Prop :=
  ∀ names e, names <+: x → look o names = some e → if names = x then e.isFile else e.isDir

theorem look_cons_of_isFile {o : Option Entry} (ho : ∀ e, o = some e → e.isFile = true) (n : Name)
    (names : List Name) : look o (n :: names) = none := by
  cases o with
  | none => rfl
  | some e =>
    have he := ho e rfl
    cases e with
    | file bytes => rfl
    | link target => cases he
    | dir entries => cases he

theorem Beside.here {o o' : Option Entry} (ho : ∀ e, o = some e → e.isFile = true)
    (ho' : ∀ e, o' = some e → e.isFile = true) : Beside [] o o' := by
  have hbelow : ∀ names : List Name, names ≠ [] → look o names = none ∧ look o' names = none := by
    intro names hnames
    obtain ⟨n, names, rfl⟩ := List.exists_cons_of_ne_nil hnames
    exact ⟨look_cons_of_isFile ho n names, look_cons_of_isFile ho' n names⟩
  refine ⟨fun names bytes h => ?_, fun names target h => ?_, fun names entries h hdir => ?_⟩
  · rw [(hbelow names h).1, (hbelow names h).2]
  · rw [(hbelow names h).1, (hbelow names h).2]
  · rw [(hbelow names h).1] at hdir
    cases hdir

theorem Beside.above {n : Name} {ns : List Name} {o : Option Entry} {entries : List (Name × Entry)}
    (ho : ∀ e, o = some e → e.isDir = true)
    (hothers : ∀ m, m ≠ n → entries.lookup m = o.bind fun e => e.child? m)
    (hbelow : Beside ns (o.bind fun e => e.child? n) (entries.lookup n)) :
    Beside (n :: ns) o (some (.dir entries)) := by
  have hnil : ∀ e, look o [] = some e → e.isDir = true := fun e he => ho e (look_nil o ▸ he)
  have hcons : ∀ m names, look (some (.dir entries)) (m :: names) = look (entries.lookup m) names :=
    fun m names => look_cons _ m names
  -- The first name of a way tells whether it leads through `n` or past it.
  refine ⟨fun names bytes h => ?_, fun names target h => ?_, fun names inner h hdir => ?_⟩
  all_goals cases names with
    | nil => ?_
    | cons m names => ?_
  · exact iff_of_false (by simp [look, get?]) fun hfile => absurd (hnil _ hfile) (by simp [isDir])
  · rw [hcons, look_cons o]
    by_cases hmn : m = n
    · subst hmn
      exact hbelow.file names bytes fun hns => h (hns ▸ rfl)
    · rw [hothers m hmn]
  · exact iff_of_false (by simp [look, get?]) fun hlink => absurd (hnil _ hlink) (by simp [isDir])
  · rw [hcons, look_cons o]
    by_cases hmn : m = n
    · subst hmn
      exact hbelow.link names target fun hns => h (hns ▸ rfl)
    · rw [hothers m hmn]
  · exact ⟨entries, rfl⟩
  · rw [look_cons o] at hdir
    rw [hcons]
    by_cases hmn : m = n
    · subst hmn
      exact hbelow.dir names inner (fun hns => h (hns ▸ rfl)) hdir
    · rw [hothers m hmn]
      exact ⟨inner, hdir⟩

theorem Free.above {o : Option Entry} {n : Name} {ns : List Name} (h : Free o (n :: ns)) :
    (∀ e, o = some e → e.isDir = true) ∧ Free (o.bind fun e => e.child? n) ns := by
  refine ⟨fun e he => ?_, fun names e hnames he => ?_⟩
  · simpa using h [] e (List.nil_prefix) (by rw [look_nil, he])
  · have hfree := h (n :: names) e (List.cons_prefix_cons.2 ⟨rfl, hnames⟩) (by rwa [look_cons])
    simpa using hfree

theorem beside_put {x : List Name} {o : Option Entry} (h : Free o x) (bytes : List UInt8) :
    Beside x o (some ((o.getD (.dir [])).put x (.file bytes))) ∧
      look (some ((o.getD (.dir [])).put x (.file bytes))) x = some (.file bytes) := by
  induction x generalizing o with
  | nil =>
    have hput : (o.getD (.dir [])).put [] (.file bytes) = .file bytes := by
      cases o.getD (.dir []) <;> rfl
    rw [hput]
    refine ⟨Beside.here (fun e he => ?_) fun e he => ?_, rfl⟩
    · simpa using h [] e (List.nil_prefix) (by rw [look_nil, he])
    · exact Option.some.inj he ▸ rfl
  | cons n ns ih =>
    obtain ⟨ho, hfree⟩ := h.above
    obtain ⟨hbeside, hlook⟩ := ih hfree
    -- Where nothing stands above the place, the write begins with an empty directory.
    obtain ⟨entries, hdir, hchild⟩ : ∃ entries, o.getD (.dir []) = .dir entries ∧
        ∀ m, entries.lookup m = o.bind fun e => e.child? m := by
      cases o with
      | none => exact ⟨[], rfl, fun _ => rfl⟩
      | some e =>
        have he := ho e rfl
        cases e with
        | dir entries => exact ⟨entries, rfl, fun _ => rfl⟩
        | file bytes => cases he
        | link target => cases he
    rw [hdir, put, hchild n]
    have hself := lookup_putChild n (((o.bind fun e => e.child? n).getD (.dir [])).put ns
      (.file bytes)) entries n
    rw [if_pos rfl] at hself
    refine ⟨Beside.above ho (fun m hmn => ?_) (hself ▸ hbeside), ?_⟩
    · rw [lookup_putChild, if_neg hmn, hchild]
    · rw [look_cons]
      exact (congrArg (look · ns) hself).trans hlook

theorem beside_remove {x : List Name} (hx : x ≠ []) {e : Entry} {bytes : List UInt8}
    (h : e.get? x = some (.file bytes)) :
    Beside x (some e) (some (e.remove x)) ∧ (e.remove x).get? x = none := by
  -- Along the way down: in each directory the other entries are left alone.
  induction x generalizing e with
  | nil => exact absurd rfl hx
  | cons n ns ih =>
    obtain ⟨entries, d, rfl, hlookup, hd⟩ := get?_cons_eq_some h
    cases ns with
    | nil =>
      cases hd
      rw [remove]
      have hself := lookup_filter_ne n entries n
      rw [if_pos rfl] at hself
      refine ⟨Beside.above (fun e he => Option.some.inj he ▸ rfl) (fun m hmn => ?_) ?_, ?_⟩
      · rw [lookup_filter_ne, if_neg hmn]
        rfl
      · rw [hself]
        refine Beside.here (fun e he => ?_) (by simp)
        have hfile := hlookup.symm.trans he
        exact Option.some.inj hfile ▸ rfl
      · rw [get?, child?, hself]
        rfl
    | cons k ns =>
      obtain ⟨hbeside, hgone⟩ := ih (List.cons_ne_nil k ns) hd
      have hremove : (dir entries).remove (n :: k :: ns) =
          .dir (putChild n (d.remove (k :: ns)) entries) := by
        rw [remove]
        · rw [hlookup]
        · exact List.cons_ne_nil k ns
      have hself := lookup_putChild n (d.remove (k :: ns)) entries n
      rw [if_pos rfl] at hself
      rw [hremove]
      refine ⟨Beside.above (fun e he => Option.some.inj he ▸ rfl) (fun m hmn => ?_) ?_, ?_⟩
      · rw [lookup_putChild, if_neg hmn]
        rfl
      · rw [hself]
        have hchild : ((some (dir entries)).bind fun e => e.child? n) = some d := hlookup
        rw [hchild]
        exact hbeside
      · rw [get?, child?, hself]
        exact hgone

theorem free_of_file {x : List Name} {e : Entry} {bytes : List UInt8}
    (h : e.get? x = some (.file bytes)) : Free (some e) x := by
  rintro names c ⟨rest, rfl⟩ hc
  have hrest : c.get? rest = some (.file bytes) := by
    have hlook : e.get? names = some c := hc
    rw [get?_append, hlook] at h
    exact h
  cases rest with
  | nil =>
    cases hrest
    simp [isFile]
  | cons n rest =>
    obtain ⟨entries, _, rfl, _⟩ := get?_cons_eq_some hrest
    simp [isDir]

end Entry
end ProjectIndex
