import Mathlib.Data.List.Forall2
import Mathlib.Data.List.ReduceOption
import ProjectIndex.Domain.Templates.Drift
import ProjectIndex.Store.Facts

/-!
Which block an override replaces. The templates above one form a chain: each is the first that the
one below refers to and whose file is not yet on the chain. So the chain never turns in a circle,
and the block meant is that of the first template on it that defines the name. A check reports an
override of such a block that has no marker or the marker of another hash, and nothing else.
-/
namespace ProjectIndex.Templates

/-- Whether a reference means a template whose file is none of those seen. -/
def IsCandidate (seen : List String) (reference : String) (t : TemplateFile) : Prop :=
  t.relativePath = String.ofList (normalizeReference reference.toList) ∧ t.path ∉ seen

instance (seen : List String) (reference : String) (t : TemplateFile) :
    Decidable (IsCandidate seen reference t) := inferInstanceAs (Decidable (_ ∧ _))

/-- The first template, in the order of the store, that a reference leads to. -/
def LeadsTo (ts : List TemplateFile) (seen : List String) (reference : String)
    (t : TemplateFile) : Prop :=
  ∃ before after, ts = before ++ t :: after ∧ IsCandidate seen reference t ∧
    ∀ u ∈ before, ¬ IsCandidate seen reference u

def Climbs (ts : List TemplateFile) : List String → Option String → List TemplateFile → Prop
  | _, _, [] => True
  | seen, target, t :: above =>
    (∃ reference, target = some reference ∧ LeadsTo ts seen reference t) ∧
      Climbs ts (t.path :: seen) t.parent above

/-- The block of that name in the nearest template that has one, on the way up from a reference. -/
def InheritsFrom (ts : List TemplateFile) (seen : List String) (target : Option String)
    (name : String) (o : InheritedBlock) : Prop :=
  ∃ passed last block, Climbs ts seen target (passed ++ [last]) ∧
    (∀ t ∈ passed, ∀ b ∈ t.blocks, b.name ≠ name) ∧
    last.blocks.find? (fun b => b.name == name) = some block ∧ o = ⟨block.hash, last.relativePath⟩

def Inherits (ts : List TemplateFile) (f : TemplateFile) (name : String) (o : InheritedBlock) :
    Prop :=
  InheritsFrom ts [f.path] f.parent name o

def Finding (ts : List TemplateFile) (f : TemplateFile) (b : TemplateBlock) :
    Option Diagnostic → Prop
  | none => ∀ o, Inherits ts f b.name o → ∃ m, b.marker = some m ∧ m.hash = o.hash
  | some d => ∃ o, Inherits ts f b.name o ∧
      (b.marker = none ∧ d = ⟨b.name, b.line, .missingMarker o.relativePath⟩ ∨
        ∃ m, b.marker = some m ∧ m.hash ≠ o.hash ∧
          d = ⟨b.name, m.line, .drift o.hash m.hash o.relativePath⟩)

def Answers (lookup : Lookup) (ts : List TemplateFile) : Prop :=
  ∀ r, lookup r = .ok (ts.filter fun t => t.relativePath == r)

section Climb

variable {ts : List TemplateFile} {lookup : Lookup} {seen : List String} {target : Option String}
  {reference name : String} {t : TemplateFile} {o : InheritedBlock}

theorem find?_candidates :
    (ts.filter fun t => t.relativePath ==
        String.ofList (normalizeReference reference.toList)).find?
      (fun c => !seen.contains c.path) = ts.find? fun c => IsCandidate seen reference c := by
  rw [List.find?_filter]
  congr 1
  funext c
  rw [Bool.eq_iff_iff]
  simp only [decide_eq_true_eq]
  simp [IsCandidate]

theorem leadsTo_iff :
    ts.find? (fun c => IsCandidate seen reference c) = some t ↔ LeadsTo ts seen reference t := by
  rw [List.find?_eq_some_iff_append]
  simp only [decide_eq_true_eq, Bool.not_eq_true', decide_eq_false_iff_not]
  constructor
  · rintro ⟨ht, before, after, hsplit, hbefore⟩
    exact ⟨before, after, hsplit, ht, hbefore⟩
  · rintro ⟨before, after, hsplit, ht, hbefore⟩
    exact ⟨ht, before, after, hsplit, hbefore⟩

theorem LeadsTo.unique {u : TemplateFile} (ht : LeadsTo ts seen reference t)
    (hu : LeadsTo ts seen reference u) : t = u := by
  rw [← leadsTo_iff] at ht hu
  exact Option.some.inj (ht.symm.trans hu)

def unseen (ts : List TemplateFile) (seen : List String) : Nat :=
  ts.countP fun t => !seen.contains t.path

theorem LeadsTo.unseen_lt (h : LeadsTo ts seen reference t) :
    unseen ts (t.path :: seen) < unseen ts seen := by
  obtain ⟨before, after, rfl, ⟨_, hfresh⟩, _⟩ := h
  have hle : ∀ us : List TemplateFile, unseen us (t.path :: seen) ≤ unseen us seen := by
    intro us
    apply List.countP_mono_left
    intro u _ hu
    simp_all
  have hhere : unseen [t] (t.path :: seen) < unseen [t] seen := by
    simp [unseen, hfresh]
  have hbefore := hle before
  have hafter := hle after
  simp only [unseen, List.countP_append, List.countP_cons, List.countP_nil] at *
  omega

theorem inheritsFrom_iff :
    InheritsFrom ts seen target name o ↔
      ∃ reference t, target = some reference ∧ LeadsTo ts seen reference t ∧
        match t.blocks.find? (fun b => b.name == name) with
        | some block => o = ⟨block.hash, t.relativePath⟩
        | none => InheritsFrom ts (t.path :: seen) t.parent name o := by
  constructor
  · rintro ⟨passed, last, block, hclimbs, hpassed, hlast, ho⟩
    cases passed with
    | nil =>
      obtain ⟨⟨reference, htarget, hleads⟩, _⟩ := hclimbs
      refine ⟨reference, last, htarget, hleads, ?_⟩
      rw [hlast]
      exact ho
    | cons t passed =>
      obtain ⟨⟨reference, htarget, hleads⟩, hrest⟩ := hclimbs
      obtain ⟨ht, hpassed⟩ := List.forall_mem_cons.1 hpassed
      have hnone : t.blocks.find? (fun b => b.name == name) = none := by simpa using ht
      refine ⟨reference, t, htarget, hleads, ?_⟩
      rw [hnone]
      exact ⟨passed, last, block, hrest, hpassed, hlast, ho⟩
  · rintro ⟨reference, t, htarget, hleads, hnext⟩
    cases hblock : t.blocks.find? (fun b => b.name == name) with
    | some block =>
      rw [hblock] at hnext
      exact ⟨[], t, block, ⟨⟨reference, htarget, hleads⟩, trivial⟩, by simp, hblock, hnext⟩
    | none =>
      rw [hblock] at hnext
      obtain ⟨passed, last, block, hclimbs, hpassed, hlast, ho⟩ := hnext
      have ht : ∀ b ∈ t.blocks, b.name ≠ name := by simpa using hblock
      exact ⟨t :: passed, last, block, ⟨⟨reference, htarget, hleads⟩, hclimbs⟩,
        List.forall_mem_cons.2 ⟨ht, hpassed⟩, hlast, ho⟩

theorem not_inheritsFrom_none : ¬ InheritsFrom ts seen none name o := by
  rw [inheritsFrom_iff]
  rintro ⟨reference, t, hnone, _⟩
  cases hnone

theorem LeadsTo.inheritsFrom_iff (h : LeadsTo ts seen reference t) :
    InheritsFrom ts seen (some reference) name o ↔
      match t.blocks.find? (fun b => b.name == name) with
      | some block => o = ⟨block.hash, t.relativePath⟩
      | none => InheritsFrom ts (t.path :: seen) t.parent name o := by
  rw [Templates.inheritsFrom_iff]
  constructor
  · rintro ⟨reference', u, htarget, hu, hnext⟩
    obtain rfl := Option.some.inj htarget
    obtain rfl := h.unique hu
    exact hnext
  · exact fun hnext => ⟨reference, t, rfl, h, hnext⟩

/-- As long as it may take more steps than there are templates left, the walk ends by itself. -/
theorem inheritedFrom_spec (hlookup : Answers lookup ts) {n : Nat} (hn : unseen ts seen < n)
    (name : String) (target : Option String) :
    ∃ found, inheritedFrom lookup name n seen target = .ok found ∧
      ∀ o, found = some o ↔ InheritsFrom ts seen target name o := by
  induction n generalizing seen target with
  | zero => exact absurd hn (Nat.not_lt_zero _)
  | succ n ih =>
    cases target with
    | none => exact ⟨none, rfl, fun o => by simp [not_inheritsFrom_none]⟩
    | some reference =>
      rw [inheritedFrom, hlookup]
      dsimp only
      rw [find?_candidates]
      cases hfind : ts.find? fun c => IsCandidate seen reference c with
      | none =>
        refine ⟨none, rfl, fun o => ⟨nofun, fun ho => ?_⟩⟩
        obtain ⟨_, t, href, hleads, _⟩ := inheritsFrom_iff.1 ho
        rw [← Option.some.inj href, ← leadsTo_iff, hfind] at hleads
        cases hleads
      | some t =>
        have hleads := leadsTo_iff.1 hfind
        dsimp only
        cases hblock : t.blocks.find? (fun b => b.name == name) with
        | some block =>
          refine ⟨_, rfl, fun o => ?_⟩
          rw [hleads.inheritsFrom_iff, hblock, Option.some.injEq]
          exact eq_comm
        | none =>
          -- The template is passed and counts as seen, so there is one less to be met.
          have hless : unseen ts (t.path :: seen) < n := by
            have := hleads.unseen_lt
            omega
          obtain ⟨found, hfound, hspec⟩ := ih hless t.parent
          refine ⟨found, hfound, fun o => ?_⟩
          rw [hspec, hleads.inheritsFrom_iff, hblock]

theorem inheritedFrom_eq (hlookup : Answers lookup ts) {n m : Nat} (hn : unseen ts seen < n)
    (hm : unseen ts seen < m) (name : String) (target : Option String) :
    inheritedFrom lookup name n seen target = inheritedFrom lookup name m seen target := by
  obtain ⟨found, hfound, hspec⟩ := inheritedFrom_spec hlookup hn name target
  obtain ⟨found', hfound', hspec'⟩ := inheritedFrom_spec hlookup hm name target
  have hsame : found = found' := Option.ext fun o => (hspec o).trans (hspec' o).symm
  rw [hfound, hfound', hsame]

theorem unseen_le (ts : List TemplateFile) (seen : List String) : unseen ts seen ≤ ts.length :=
  List.countP_le_length

def OffChain (ts : List TemplateFile) (seen : List String) (target : Option String)
    (u : TemplateFile) : Prop :=
  ∀ chain, Climbs ts seen target chain → u ∉ chain

theorem find?_filter_ne {p : TemplateFile → Bool} {u : TemplateFile} (h : ts.find? p ≠ some u) :
    (ts.filter (· != u)).find? p = ts.find? p := by
  induction ts with
  | nil => rfl
  | cons t ts ih =>
    rw [List.find?_cons] at h
    rw [List.filter_cons, List.find?_cons]
    cases hp : p t with
    | true =>
      rw [hp] at h
      have hne : (t != u) = true := by simpa using h
      rw [if_pos hne, List.find?_cons, hp]
    | false =>
      rw [hp] at h
      split
      · rw [List.find?_cons, hp]
        exact ih h
      · exact ih h

theorem leadsTo_filter {u : TemplateFile} (h : ¬ LeadsTo ts seen reference u) :
    LeadsTo (ts.filter (· != u)) seen reference t ↔ LeadsTo ts seen reference t := by
  rw [← leadsTo_iff] at h
  rw [← leadsTo_iff, ← leadsTo_iff, find?_filter_ne h]

theorem climbs_filter {u : TemplateFile} {chain : List TemplateFile}
    (h : OffChain ts seen target u) :
    Climbs (ts.filter (· != u)) seen target chain ↔ Climbs ts seen target chain := by
  induction chain generalizing seen target with
  | nil => exact Iff.rfl
  | cons t chain ih =>
    have hu : ∀ reference, target = some reference → ¬ LeadsTo ts seen reference u :=
      fun reference htarget hleads =>
        h [u] ⟨⟨reference, htarget, hleads⟩, trivial⟩ (List.mem_singleton_self u)
    have hstep : (∃ reference, target = some reference ∧
          LeadsTo (ts.filter (· != u)) seen reference t) ↔
        ∃ reference, target = some reference ∧ LeadsTo ts seen reference t :=
      exists_congr fun reference => and_congr_right fun htarget =>
        leadsTo_filter (hu reference htarget)
    refine (and_congr_left fun _ => hstep).trans (and_congr_right fun hleads => ?_)
    exact ih fun above habove hmem => h (t :: above) ⟨hleads, habove⟩ (List.mem_cons_of_mem _ hmem)

theorem inherits_filter {u f : TemplateFile} (h : OffChain ts [f.path] f.parent u) :
    Inherits (ts.filter (· != u)) f name o ↔ Inherits ts f name o := by
  refine exists_congr fun passed => exists_congr fun last => exists_congr fun block => ?_
  exact and_congr_left fun _ => climbs_filter h

end Climb

section Check

variable {ts : List TemplateFile} {lookup : Lookup} {n : Nat} {f : TemplateFile}

theorem findInherited_spec (hlookup : Answers lookup ts) (hn : ts.length ≤ n) (f : TemplateFile)
    (name : String) :
    ∃ found, findInherited lookup n f name = .ok found ∧
      ∀ o, found = some o ↔ Inherits ts f name o :=
  inheritedFrom_spec hlookup (Nat.lt_succ_of_le (Nat.le_trans (unseen_le ..) hn)) name f.parent

theorem finding_diagnose {b : TemplateBlock} {found : Option InheritedBlock}
    (h : ∀ o, found = some o ↔ Inherits ts f b.name o) :
    Finding ts f b (found.bind (diagnose b)) := by
  cases found with
  | none => exact fun o ho => absurd ((h o).2 ho) (by simp)
  | some o =>
    have ho : Inherits ts f b.name o := (h o).1 rfl
    have hunique : ∀ o', Inherits ts f b.name o' → o' = o := fun o' ho' =>
      (Option.some.inj ((h o').2 ho')).symm
    change Finding ts f b (diagnose b o)
    unfold diagnose
    cases hmarker : b.marker with
    | none => exact ⟨o, ho, .inl ⟨hmarker, rfl⟩⟩
    | some m =>
      dsimp only
      by_cases hhash : m.hash = o.hash
      · have hsame : (m.hash != o.hash) = false := by simpa using hhash
        rw [hsame]
        intro o' ho'
        exact ⟨m, hmarker, hunique o' ho' ▸ hhash⟩
      · have hdiffers : (m.hash != o.hash) = true := by simpa using hhash
        rw [hdiffers]
        exact ⟨o, ho, .inr ⟨m, hmarker, hhash, rfl⟩⟩

theorem checkBlocks_spec (hlookup : Answers lookup ts) (hn : ts.length ≤ n) (f : TemplateFile)
    (bs : List TemplateBlock) :
    ∃ findings, checkBlocks lookup n f bs = .ok findings.reduceOption ∧
      List.Forall₂ (Finding ts f) bs findings := by
  induction bs with
  | nil => exact ⟨[], rfl, .nil⟩
  | cons b bs ih =>
    obtain ⟨findings, hrest, hfindings⟩ := ih
    obtain ⟨found, hfound, hspec⟩ := findInherited_spec hlookup hn f b.name
    refine ⟨found.bind (diagnose b) :: findings, ?_, .cons (finding_diagnose hspec) hfindings⟩
    rw [checkBlocks, hfound, hrest]
    dsimp only
    cases found.bind (diagnose b) with
    | none => rw [List.reduceOption_cons_of_none, Option.toList_none, List.nil_append]
    | some d => rw [List.reduceOption_cons_of_some, Option.toList_some, List.singleton_append]

theorem answers_values {s : FactStore TemplateFile} (hopen : s.closed = false)
    (hkeys : ∀ r ∈ s.rows, r.key = r.value.relativePath) :
    Answers s.values (s.rows.map Row.value) := by
  intro key
  have hfilter : (s.rows.filter fun r => r.key == key) =
      s.rows.filter fun r => r.value.relativePath == key :=
    List.filter_congr fun r hr => by rw [hkeys r hr]
  rw [FactStore.values, FactStore.whenOpen, hopen, hfilter, List.filter_map]
  rfl

theorem checkFile_eq (lookup : Lookup) (n : Nat) (h : f.parent = none) :
    checkFile lookup n f = .ok [] := by
  rw [checkFile, h]
  rfl

end Check

/-- The walk up ends by itself, also on circles, and finds a block exactly if the chain of templates
has one; the findings on a template are, block by block, those that its chain gives. A template off
the chain plays no part. -/
theorem drift_follows_chain {ts : List TemplateFile} {lookup : Lookup} {n : Nat}
    (hlookup : Answers lookup ts) (hn : ts.length ≤ n) (f : TemplateFile) :
    (∀ name, ∃ found, findInherited lookup n f name = .ok found ∧
      (∀ o, found = some o ↔ Inherits ts f name o) ∧
      ∀ m, ts.length < m → inheritedFrom lookup name m [f.path] f.parent = .ok found) ∧
    (∃ findings, checkFile lookup n f = .ok findings.reduceOption ∧
      List.Forall₂ (Finding ts f) f.blocks findings) ∧
    ∀ u, OffChain ts [f.path] f.parent u →
      ∀ name o, Inherits (ts.filter (· != u)) f name o ↔ Inherits ts f name o := by
  refine ⟨?_, ?_, fun u hu name o => inherits_filter hu⟩
  · intro name
    obtain ⟨found, hfound, hspec⟩ := findInherited_spec hlookup hn f name
    refine ⟨found, hfound, hspec, fun m hm => ?_⟩
    have hless : ∀ k, ts.length < k → unseen ts [f.path] < k := fun k hk =>
      Nat.lt_of_le_of_lt (unseen_le ..) hk
    rw [inheritedFrom_eq hlookup (hless m hm) (hless (n + 1) (Nat.lt_succ_of_le hn))]
    exact hfound
  · cases hparent : f.parent with
    | none =>
      refine ⟨f.blocks.map fun _ => none, ?_, ?_⟩
      · rw [checkFile_eq lookup n hparent]
        simp
      · rw [List.forall₂_map_right_iff, List.forall₂_same]
        intro b _ o ho
        rw [Inherits, hparent] at ho
        exact absurd ho not_inheritsFrom_none
    | some reference =>
      obtain ⟨findings, hcheck, hfindings⟩ := checkBlocks_spec hlookup hn f f.blocks
      refine ⟨findings, ?_, hfindings⟩
      rw [checkFile, hparent]
      exact hcheck

/-- Two templates that extend each other; only the second has a block. -/
def circle : FactStore TemplateFile where
  name := "templates"
  rows := [
    ⟨⟨['/', 'a']⟩, "a", ⟨"/a", "a", "", some "@B/b", some 1, []⟩⟩,
    ⟨⟨['/', 'b']⟩, "b", ⟨"/b", "b", "", some "/a", some 1, [⟨"head", 2, "5e", none⟩]⟩⟩]
  closed := false

def besideCircle : TemplateFile where
  path := "/c"
  relativePath := "c"
  bundleName := ""
  parent := some "a"
  parentLine := some 1
  blocks := [⟨"head", 3, "0f", some ⟨"c4", "1", 2⟩⟩, ⟨"foot", 4, "1f", none⟩]

theorem drift_follows_chain_circle :
    Answers circle.values (circle.rows.map Row.value) ∧
      (circle.rows.map Row.value).length ≤ circle.rows.length ∧
      Inherits (circle.rows.map Row.value) besideCircle "head" ⟨"5e", "b"⟩ ∧
      (∀ o, ¬ Inherits (circle.rows.map Row.value) besideCircle "foot" o) ∧
      ∃ findings, checkFile circle.values circle.rows.length besideCircle =
          .ok findings.reduceOption ∧
        List.Forall₂ (Finding (circle.rows.map Row.value) besideCircle) besideCircle.blocks
          findings := by
  have hanswers : Answers circle.values (circle.rows.map Row.value) :=
    answers_values rfl (by decide)
  have hlength : (circle.rows.map Row.value).length ≤ circle.rows.length := by decide
  obtain ⟨hwalk, hcheck, _⟩ := drift_follows_chain hanswers hlength besideCircle
  obtain ⟨found, hfound, hinherits, _⟩ := hwalk "head"
  obtain ⟨absent, habsent, hnothing, _⟩ := hwalk "foot"
  have hhead : findInherited circle.values circle.rows.length besideCircle "head" =
      .ok (some ⟨"5e", "b"⟩) := rfl
  have hfoot : findInherited circle.values circle.rows.length besideCircle "foot" = .ok none := rfl
  rw [hhead] at hfound
  rw [hfoot] at habsent
  cases hfound
  cases habsent
  have hfree : ∀ o, ¬ Inherits (circle.rows.map Row.value) besideCircle "foot" o := by
    intro o ho
    cases (hnothing o).2 ho
  exact ⟨hanswers, hlength, (hinherits _).1 rfl, hfree, hcheck⟩

end ProjectIndex.Templates
