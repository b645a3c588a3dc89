import Mathlib.Data.List.Nodup
import Mathlib.Order.Bounds.Basic
import Mathlib.Order.Nat
import ProjectIndex.Domain.Components.TemplateScan
import ProjectIndex.Proofs.Text.Search

/-!
The slot tags that are found in a template line by line. A tag is read with the value of its first
attribute if that is its name, and as the default slot otherwise, though its name may stand among the
other attributes. Over a whole template each name is kept with the first line it is read in.
-/
namespace ProjectIndex.Components

open ProjectIndex.Text

section Places

variable {ps : List NamedPlace} {p : NamedPlace}

theorem nodup_distinctPlaces (ps : List NamedPlace) :
    ((distinctPlaces ps).map NamedPlace.name).Nodup := by
  induction ps with
  | nil => exact List.nodup_nil
  | cons q ps ih =>
    rw [distinctPlaces, List.map_cons, List.nodup_cons]
    refine ⟨fun hmem => ?_, ih.sublist (List.filter_sublist.map _)⟩
    obtain ⟨r, hr, hname⟩ := List.mem_map.1 hmem
    exact bne_iff_ne.1 (List.mem_filter.1 hr).2 hname

theorem mem_distinctPlaces (hsorted : ps.Pairwise fun p q => p.line ≤ q.line) :
    p ∈ distinctPlaces ps ↔ p ∈ ps ∧ ∀ q ∈ ps, q.name = p.name → p.line ≤ q.line := by
  induction ps with
  | nil => exact ⟨nofun, nofun⟩
  | cons q ps ih =>
    obtain ⟨hfirst, hsorted⟩ := List.pairwise_cons.1 hsorted
    rw [distinctPlaces, List.mem_cons, List.mem_filter, ih hsorted, List.mem_cons,
      List.forall_mem_cons, bne_iff_ne]
    constructor
    · rintro (rfl | ⟨⟨hp, hleast⟩, hother⟩)
      · exact ⟨.inl rfl, fun _ => Nat.le_refl _, fun r hr _ => hfirst r hr⟩
      · exact ⟨.inr hp, fun hname => absurd hname.symm hother, hleast⟩
    · rintro ⟨rfl | hp, hq, hleast⟩
      · exact .inl rfl
      · by_cases hname : p.name = q.name
        · have hline : p.line = q.line := Nat.le_antisymm (hq hname.symm) (hfirst p hp)
          exact .inl (by cases p; cases q; simp_all)
        · exact .inr ⟨⟨hp, hleast⟩, hname⟩

variable {matchAt : List Char → Option (List Char × List Char)} {src line : List Char} {name : String}

def linesWith (matchAt : List Char → Option (List Char × List Char)) (src : List Char)
    (name : String) : Set Nat :=
  {n | ∃ k line, n = k + 1 ∧ (lines src)[k]? = some line ∧
    name ∈ (scanAll matchAt line).map String.ofList}

theorem mem_places : p ∈ places matchAt src ↔ IsLeast (linesWith matchAt src p.name) p.line := by
  let found : List NamedPlace := (lines src).zipIdx.flatMap fun x =>
    (scanAll matchAt x.1).map fun name => ⟨String.ofList name, x.2 + 1⟩
  have hplaces : places matchAt src = distinctPlaces found := rfl
  have hmem : ∀ q : NamedPlace, q ∈ found ↔ q.line ∈ linesWith matchAt src q.name := by
    rintro ⟨name, n⟩
    simp only [found, List.mem_flatMap, List.mem_map, List.mem_zipIdx_iff_getElem?, NamedPlace.mk.injEq,
      Prod.exists, linesWith, Set.mem_ofPred_eq]
    constructor
    · rintro ⟨line, k, hline, s, hs, rfl, rfl⟩
      exact ⟨k, line, rfl, hline, s, hs, rfl⟩
    · rintro ⟨k, line, rfl, hline, s, hs, rfl⟩
      exact ⟨line, k, hline, s, hs, rfl, rfl⟩
  have hindices : (lines src).zipIdx.Pairwise fun x y => x.2 < y.2 := by
    rw [← List.pairwise_map (f := Prod.snd), List.zipIdx_map_snd]
    exact List.pairwise_lt_range'
  have hsorted : found.Pairwise fun p q => p.line ≤ q.line := by
    refine List.pairwise_flatMap.2 ⟨fun x _ => ?_, hindices.imp fun hlt p hp q hq => ?_⟩
    · exact List.pairwise_map.2 (List.pairwise_of_forall fun _ _ => Nat.le_refl _)
    · obtain ⟨_, _, rfl⟩ := List.mem_map.1 hp
      obtain ⟨_, _, rfl⟩ := List.mem_map.1 hq
      exact Nat.succ_le_succ (Nat.le_of_lt hlt)
  rw [hplaces, mem_distinctPlaces hsorted, hmem]
  refine and_congr_right' ⟨fun hleast n hn => ?_, fun hleast q hq hname => ?_⟩
  · exact hleast ⟨p.name, n⟩ ((hmem _).2 hn) rfl
  · exact hleast (hname ▸ (hmem q).1 hq)

end Places

section Tags

open slotName? (isQuoteMark quoteMark?)

def inName (c : Char) : Bool := !isBlank c && !isQuoteMark c && c != '=' && c != '>'

def inValue (c : Char) : Bool := !isQuoteMark c && c != '>'

def inLast (c : Char) : Bool := isBlank c || c == '/'

structure Attribute where
  gap : List Char
  name : List Char
  mark : Char
  value : List Char
  isRun_gap : IsRun isBlank gap
  isRun_name : IsRun inName name
  isQuoteMark_mark : isQuoteMark mark = true
  inValue_value : ∀ c ∈ value, inValue c = true

/-- A slot tag: attributes of different names, and what stands behind them. -/
structure SlotTag where
  attributes : List Attribute
  last : List Char
  nodup_names : (attributes.map Attribute.name).Nodup
  inLast_last : ∀ c ∈ last, inLast c = true

def Attribute.chars (a : Attribute) : List Char :=
  a.gap ++ (a.name ++ '=' :: a.mark :: (a.value ++ [a.mark]))

def Attribute.Names (a : Attribute) : Prop := a.name = "name".toList

instance (a : Attribute) : Decidable a.Names := inferInstanceAs (Decidable (a.name = "name".toList))

namespace SlotTag

def body (tag : SlotTag) : List Char := tag.attributes.flatMap Attribute.chars ++ tag.last

def chars (tag : SlotTag) : List Char := "<slot".toList ++ (tag.body ++ ['>'])

/-- The name of the slot: the value of that attribute, wherever it stands. -/
def slot (tag : SlotTag) : List Char :=
  ((tag.attributes.find? fun a => a.Names).map Attribute.value).getD "default".toList

/-- The name a tag is read with: the first attribute alone counts, unless it is empty. -/
def read (tag : SlotTag) : List Char :=
  match tag.attributes with
  | a :: _ => if a.Names ∧ a.value ≠ [] then a.value else "default".toList
  | [] => "default".toList

end SlotTag

variable {s u rest value before after : List Char} {c : Char}

theorem quoteMark?_cons (h : isQuoteMark c = true) (s : List Char) :
    quoteMark? (c :: s) = some (c, s) := if_pos h

theorem not_close_of_isBlank (h : isBlank c = true) : c ≠ '>' := by
  rintro rfl
  cases h

theorem not_close_of_isQuoteMark (h : isQuoteMark c = true) : c ≠ '>' := by
  rintro rfl
  cases h

namespace Attribute

variable (a : Attribute)

theorem close_notMem : '>' ∉ a.chars := by
  have hgap : '>' ∉ a.gap := fun h => not_close_of_isBlank (a.isRun_gap.2 _ h) rfl
  have hname : '>' ∉ a.name := fun h => absurd (a.isRun_name.2 _ h) (by decide)
  have hmark : '>' ≠ a.mark := (not_close_of_isQuoteMark a.isQuoteMark_mark).symm
  have hvalue : '>' ∉ a.value := fun h => absurd (a.inValue_value _ h) (by decide)
  simp [chars, hgap, hname, hmark, hvalue]

theorem dropStart?_name (s : List Char) :
    dropStart? "name=".toList (a.name ++ '=' :: s) = if a.Names then some s else none := by
  split
  · next hnames =>
    rw [hnames]
    exact dropStart?_append "name=".toList s
  · next hnames =>
    refine Option.eq_none_iff_forall_ne_some.2 fun rest hrest => hnames ?_
    have hname : '=' ∉ a.name := fun h => absurd (a.isRun_name.2 _ h) (by decide)
    have hsplit := splitAtFirst_singleton hname s
    have hkeyword : '=' ∉ "name".toList := by decide
    have hsame := eq_append_of_dropStart? hrest
    have hfirst : splitAtFirst ['='] ("name=".toList ++ rest) = some ("name".toList, rest) :=
      splitAtFirst_singleton hkeyword rest
    rw [hsame, hfirst] at hsplit
    exact (Prod.mk.inj (Option.some.inj hsplit)).1.symm

theorem run?_value (s : List Char) :
    run? (fun c => !isQuoteMark c) (a.value ++ a.mark :: s) =
      if a.value ≠ [] then some (a.value, a.mark :: s) else none := by
  have hmark : (!isQuoteMark a.mark) = false := by rw [a.isQuoteMark_mark]; rfl
  split
  · next hne =>
    have hrun : IsRun (fun c => !isQuoteMark c) a.value :=
      ⟨hne, fun c hc => (Bool.and_eq_true_iff.1 (a.inValue_value c hc)).1⟩
    exact hrun.run?_eq hmark s
  · next hempty =>
    rw [not_not.1 hempty, List.nil_append, run?, List.takeWhile_cons_of_neg (by simp [hmark])]
    rfl

theorem slotName?_append (rest : List Char) :
    slotName? (a.chars ++ rest) = if a.Names ∧ a.value ≠ [] then some (a.value, rest) else none := by
  have hchars : a.chars ++ rest =
      a.gap ++ (a.name ++ '=' :: a.mark :: (a.value ++ a.mark :: rest)) := by simp [chars]
  have hhead : ∀ d ∈ (a.name ++ '=' :: a.mark :: (a.value ++ a.mark :: rest)).head?,
      isBlank d = false := by
    obtain ⟨c, name, hname⟩ := List.exists_cons_of_ne_nil a.isRun_name.1
    have hin : inName c = true := a.isRun_name.2 c (hname ▸ List.mem_cons_self ..)
    simp only [inName, Bool.and_eq_true, Bool.not_eq_true'] at hin
    rw [hname]
    exact forall_mem_head?_cons hin.1.1.1
  simp only [slotName?, Option.bind_eq_bind, hchars, a.isRun_gap.run?_append hhead, Option.bind_some,
    dropStart?_name]
  by_cases hnames : a.Names
  · rw [if_pos hnames, Option.bind_some, quoteMark?_cons a.isQuoteMark_mark, Option.bind_some,
      run?_value]
    by_cases hvalue : a.value ≠ []
    · rw [if_pos hvalue, if_pos ⟨hnames, hvalue⟩, Option.bind_some,
        quoteMark?_cons a.isQuoteMark_mark, Option.bind_some]
    · rw [if_neg hvalue, if_neg fun h => hvalue h.2, Option.bind_none]
  · rw [if_neg hnames, if_neg fun h => hnames h.1, Option.bind_none]

end Attribute

theorem slotName?_eq_none (h : ∀ c ∈ (s.dropWhile isBlank).head?, c ≠ 'n') : slotName? s = none := by
  have hkeyword : dropStart? "name=".toList (s.dropWhile isBlank) = none := by
    refine Option.eq_none_iff_forall_ne_some.2 fun rest hrest => ?_
    have hsame := eq_append_of_dropStart? hrest
    exact h 'n' (by rw [hsame]; rfl) rfl
  refine Option.eq_none_iff_forall_ne_some.2 fun found hfound => ?_
  simp only [slotName?, Option.bind_eq_bind, Option.bind_eq_some_iff] at hfound
  obtain ⟨⟨run, behind⟩, hrun, tail, htail, _⟩ := hfound
  rw [run?] at hrun
  split at hrun
  · cases hrun
  · rw [← (Prod.mk.inj (Option.some.inj hrun)).2, hkeyword] at htail
    cases htail

theorem pastTag?_append (h : '>' ∉ s) (rest : List Char) : pastTag? (s ++ '>' :: rest) = some rest := by
  have hpass : ∀ c ∈ s, (c != '>') = true := fun c hc => bne_iff_ne.2 fun heq => h (heq ▸ hc)
  rw [pastTag?, (takeWhile_run hpass ('>' :: rest) (forall_mem_head?_cons (by decide))).2]

theorem head?_dropWhile_inLast (hs : ∀ c ∈ s, inLast c = true) (rest : List Char) :
    ∀ d ∈ ((s ++ '>' :: rest).dropWhile isBlank).head?, d ≠ 'n' := by
  intro d hd
  induction s with
  | nil =>
    rw [List.nil_append, List.dropWhile_cons_of_neg (by decide)] at hd
    exact Option.some.inj hd ▸ by decide
  | cons c s ih =>
    obtain ⟨hc, hs⟩ := List.forall_mem_cons.1 hs
    rw [inLast, Bool.or_eq_true, beq_iff_eq] at hc
    rw [List.cons_append] at hd
    rcases hc with hblank | rfl
    · rw [List.dropWhile_cons_of_pos hblank] at hd
      exact ih hs hd
    · rw [List.dropWhile_cons_of_neg (by decide)] at hd
      exact Option.some.inj hd ▸ by decide

namespace SlotTag

variable (tag : SlotTag)

theorem close_notMem_last : '>' ∉ tag.last := fun h => absurd (tag.inLast_last _ h) (by decide)

theorem slotName?_last (rest : List Char) : slotName? (tag.last ++ '>' :: rest) = none :=
  slotName?_eq_none (head?_dropWhile_inLast tag.inLast_last rest)

theorem slotAt_append (rest : List Char) : slotAt (tag.chars ++ rest) = some (tag.read, rest) := by
  have hclose (as : List Attribute) : '>' ∉ as.flatMap Attribute.chars ++ tag.last := by
    rw [List.mem_append, List.mem_flatMap]
    rintro (⟨a, _, ha⟩ | hlast)
    · exact a.close_notMem ha
    · exact tag.close_notMem_last hlast
  have hchars : tag.chars ++ rest = "<slot".toList ++ (tag.body ++ '>' :: rest) := by simp [chars]
  rw [slotAt, hchars, dropStart?_append]
  simp only [Option.bind_eq_bind, Option.bind_some, body]
  rw [pastTag?_append (hclose tag.attributes), read]
  cases tag.attributes with
  | nil =>
    rw [List.flatMap_nil, List.nil_append, tag.slotName?_last]
    rfl
  | cons a as =>
    -- the name is tried at the first attribute only; what stands behind is passed over with the tag
    have hpast := pastTag?_append (hclose as) rest
    rw [List.append_assoc] at hpast
    rw [List.flatMap_cons, List.append_assoc, List.append_assoc, a.slotName?_append]
    dsimp only
    by_cases hfirst : a.Names ∧ a.value ≠ []
    · rw [if_pos hfirst, if_pos hfirst, Option.bind_some, hpast]
      rfl
    · rw [if_neg hfirst, if_neg hfirst]
      rfl

variable {tag} {a b : Attribute}

theorem eq_of_names (ha : a ∈ tag.attributes) (hb : b ∈ tag.attributes) (hna : a.Names)
    (hnb : b.Names) : a = b := List.inj_on_of_nodup_map tag.nodup_names ha hb (hna.trans hnb.symm)

theorem slot_of_names (ha : a ∈ tag.attributes) (hnames : a.Names) : tag.slot = a.value := by
  rw [slot]
  cases hfind : tag.attributes.find? fun a => a.Names with
  | none => exact absurd (decide_eq_true hnames) (List.find?_eq_none.1 hfind a ha)
  | some b =>
    have hb := List.find?_some hfind
    rw [eq_of_names ha (List.mem_of_find?_eq_some hfind) hnames (of_decide_eq_true hb)]
    rfl

theorem slot_of_unnamed (h : ∀ a ∈ tag.attributes, ¬ a.Names) : tag.slot = "default".toList := by
  have hfind : tag.attributes.find? (fun a => a.Names) = none :=
    List.find?_eq_none.2 fun a ha => by rw [decide_eq_true_eq]; exact h a ha
  rw [slot, hfind]
  rfl

theorem read_of_first (h : tag.attributes.head? = some a) (hnames : a.Names) (hvalue : a.value ≠ []) :
    tag.read = a.value := by
  obtain ⟨as, has⟩ := List.head?_eq_some_iff.1 h
  rw [read, has]
  exact if_pos ⟨hnames, hvalue⟩

theorem read_of_other (h : ∀ a, tag.attributes.head? = some a → a.Names → a.value = []) :
    tag.read = "default".toList := by
  rw [read]
  cases has : tag.attributes with
  | nil => rfl
  | cons a as =>
    rw [has] at h
    exact if_neg fun hfirst => hfirst.2 (h a rfl hfirst.1)

/-- A tag is read with the name of its slot exactly if no attribute names it, or the first one does and
is not empty, or its name is the one of the default slot anyway. -/
theorem read_eq_slot_iff : tag.read = tag.slot ↔
    ∀ a ∈ tag.attributes, a.Names →
      a.value = "default".toList ∨ a.value ≠ [] ∧ tag.attributes.head? = some a := by
  by_cases hnamed : ∃ a ∈ tag.attributes, a.Names
  · obtain ⟨a, ha, hnames⟩ := hnamed
    have honly : ∀ b ∈ tag.attributes, b.Names → b = a := fun b hb hb' => eq_of_names hb ha hb' hnames
    rw [slot_of_names ha hnames]
    by_cases hfirst : a.value ≠ [] ∧ tag.attributes.head? = some a
    · refine iff_of_true (read_of_first hfirst.2 hnames hfirst.1) fun b hb hb' => ?_
      exact honly b hb hb' ▸ .inr hfirst
    · have hread : tag.read = "default".toList := read_of_other fun b hb hb' => by
        obtain rfl := honly b (List.mem_of_mem_head? hb) hb'
        exact not_not.1 fun hvalue => hfirst ⟨hvalue, hb⟩
      rw [hread]
      constructor
      · intro hvalue b hb hb'
        exact honly b hb hb' ▸ .inl hvalue.symm
      · exact fun hall => ((hall a ha hnames).resolve_right hfirst).symm
  · have hnone : ∀ a ∈ tag.attributes, ¬ a.Names := fun a ha hnames => hnamed ⟨a, ha, hnames⟩
    refine iff_of_true ?_ fun a ha hnames => absurd hnames (hnone a ha)
    rw [slot_of_unnamed hnone, read_of_other]
    exact fun a ha hnames => absurd hnames (hnone a (List.mem_of_mem_head? ha))

end SlotTag

theorem suffix_of_slotName? (h : slotName? s = some (value, rest)) : rest <:+ s := by
  simp only [slotName?, Option.bind_eq_bind, Option.bind_eq_some_iff] at h
  obtain ⟨⟨gap, s₁⟩, hgap, s₂, hkeyword, ⟨mark, s₃⟩, hmark, ⟨word, s₄⟩, hword, ⟨mark', s₅⟩, hmark',
    hsome⟩ := h
  obtain rfl := (Prod.mk.inj (Option.some.inj hsome)).2
  have hquote : ∀ {c : Char} {u v : List Char}, quoteMark? u = some (c, v) → v <:+ u := by
    intro c u v hu
    cases u with
    | nil => cases hu
    | cons d u =>
      rw [quoteMark?] at hu
      split at hu
      · exact (Prod.mk.inj (Option.some.inj hu)).2 ▸ List.suffix_cons d u
      · cases hu
  have hafter : s₁ <:+ s := ⟨gap, (eq_append_of_run? hgap).1.symm⟩
  have hbehind : s₂ <:+ s₁ := ⟨_, (eq_append_of_dropStart? hkeyword).symm⟩
  have hvalue : s₄ <:+ s₃ := ⟨word, (eq_append_of_run? hword).1.symm⟩
  exact (hquote hmark').trans (hvalue.trans ((hquote hmark).trans (hbehind.trans hafter)))

theorem suffix_of_pastTag? (h : pastTag? s = some rest) : rest <:+ s := by
  rw [pastTag?] at h
  split at h
  · next c tail hdrop =>
    obtain rfl := Option.some.inj h
    have hsuffix := List.dropWhile_suffix (l := s) (· != '>')
    rw [hdrop] at hsuffix
    exact (List.suffix_cons c tail).trans hsuffix
  · cases h

theorem prefix_of_slotAt (h : slotAt s = some (value, rest)) :
    ∃ tail, s = "<slot".toList ++ tail ∧ rest <:+ tail := by
  simp only [slotAt, Option.bind_eq_bind, Option.bind_eq_some_iff] at h
  obtain ⟨tail, hstart, h⟩ := h
  refine ⟨tail, eq_append_of_dropStart? hstart, ?_⟩
  split at h
  · next found hnamed =>
    obtain rfl := Option.some.inj h
    simp only [Option.bind_eq_some_iff, Option.map_eq_some_iff] at hnamed
    obtain ⟨⟨word, behind⟩, hname, past, hpast, hfound⟩ := hnamed
    obtain ⟨_, rfl⟩ := Prod.mk.inj hfound
    exact (suffix_of_pastTag? hpast).trans (suffix_of_slotName? hname)
  · obtain ⟨past, hpast, hfound⟩ := Option.map_eq_some_iff.1 h
    obtain ⟨_, rfl⟩ := Prod.mk.inj hfound
    exact suffix_of_pastTag? hpast

theorem consumes_slotAt : Consumes slotAt := by
  intro s name rest h
  obtain ⟨tail, rfl, hsuffix⟩ := prefix_of_slotAt h
  rw [List.length_append]
  exact Nat.lt_of_le_of_lt hsuffix.length_le (Nat.lt_add_of_pos_left (by decide))

theorem scanAll_slotAt_append (h : ¬ "<slot".toList <:+: s) (hrest : ∀ d ∈ rest.head?, d = '<') :
    scanAll slotAt (s ++ rest) = scanAll slotAt rest := by
  refine scanAll_append fun u hu hsuffix => Option.eq_none_iff_forall_ne_some.2 fun found hfound => ?_
  obtain ⟨tail, htail, _⟩ := prefix_of_slotAt hfound
  rcases List.append_eq_append_iff.1 htail with ⟨x, hx, hrest'⟩ | ⟨x, hx, _⟩
  · cases x with
    | nil =>
      rw [List.append_nil] at hx
      exact h (hx ▸ hsuffix.isInfix)
    | cons d x =>
      -- the opening bracket of the tag stands first, and something of it stands in front of the rest
      obtain rfl := hrest d (by rw [hrest']; rfl)
      obtain ⟨c, u, rfl⟩ := List.exists_cons_of_ne_nil hu
      have hopen : '<' :: "slot".toList = c :: (u ++ '<' :: x) := hx
      have hinside : '<' ∈ "slot".toList := by
        rw [(List.cons.inj hopen).2]
        exact List.mem_append_right u (List.mem_cons_self ..)
      exact absurd hinside (by decide)
  · exact h ((List.prefix_append _ x).isInfix.trans (hx ▸ hsuffix.isInfix))

theorem scanAll_slotAt_tag (hbefore : ¬ "<slot".toList <:+: before) (tag : SlotTag)
    (after : List Char) :
    scanAll slotAt (before ++ (tag.chars ++ after)) = tag.read :: scanAll slotAt after := by
  have hopen : (tag.chars ++ after).head? = some '<' := rfl
  rw [scanAll_slotAt_append hbefore fun d hd => (Option.some.inj (hopen ▸ hd)).symm,
    consumes_slotAt.scanAll_of_some (tag.slotAt_append after)]

theorem scanAll_slotAt_eq_nil (h : ¬ "<slot".toList <:+: s) : scanAll slotAt s = [] := by
  have hnone : scanAll slotAt (s ++ []) = [] := scanAll_slotAt_append h nofun
  rwa [List.append_nil] at hnone

end Tags

section Templates

variable {before after : List Char} {k : Nat}

/-- A line with one tag gives the name the tag is read with. This is the name of the slot exactly if no
attribute says one, or the first one does and is not empty, or it is the one of the default slot. Over
the template each name is recorded once, with the first line that gives it. -/
theorem slots_recorded (src : List Char) (tag : SlotTag)
    (hline : (lines src)[k]? = some (before ++ (tag.chars ++ after)))
    (hbefore : ¬ "<slot".toList <:+: before) (hafter : ¬ "<slot".toList <:+: after) :
    (∀ name : String, k + 1 ∈ linesWith slotAt src name ↔ name = String.ofList tag.read) ∧
      String.ofList tag.read ∈ (slotsOf src).map NamedPlace.name ∧
      (tag.read = tag.slot ↔ ∀ a ∈ tag.attributes, a.Names →
        a.value = "default".toList ∨ a.value ≠ [] ∧ tag.attributes.head? = some a) ∧
      ((slotsOf src).map NamedPlace.name).Nodup ∧
      ∀ p : NamedPlace, p ∈ slotsOf src ↔ IsLeast (linesWith slotAt src p.name) p.line := by
  have hread : scanAll slotAt (before ++ (tag.chars ++ after)) = [tag.read] := by
    rw [scanAll_slotAt_tag hbefore, scanAll_slotAt_eq_nil hafter]
  have hgives : ∀ name : String, k + 1 ∈ linesWith slotAt src name ↔ name = String.ofList tag.read := by
    intro name
    constructor
    · rintro ⟨j, line, hj, hjline, hname⟩
      obtain rfl := Nat.succ.inj hj
      obtain rfl := Option.some.inj (hline.symm.trans hjline)
      rw [hread] at hname
      exact List.mem_singleton.1 hname
    · rintro rfl
      refine ⟨k, _, rfl, hline, ?_⟩
      rw [hread]
      exact List.mem_singleton_self _
  refine ⟨hgives, ?_, SlotTag.read_eq_slot_iff, nodup_distinctPlaces _, fun p => mem_places⟩
  classical
  have hleast := Nat.isLeast_find ⟨k + 1, (hgives _).2 rfl⟩
  exact List.mem_map.2 ⟨⟨_, _⟩, mem_places.2 hleast, rfl⟩

def conditionAttribute : Attribute where
  gap := [' ']
  name := "v-if".toList
  mark := '"'
  value := ['a']
  isRun_gap := by decide
  isRun_name := by decide
  isQuoteMark_mark := by decide
  inValue_value := List.all_eq_true.1 (by decide)

def footerAttribute : Attribute where
  gap := [' ']
  name := "name".toList
  mark := '"'
  value := "footer".toList
  isRun_gap := by decide
  isRun_name := by decide
  isQuoteMark_mark := by decide
  inValue_value := List.all_eq_true.1 (by decide)

def footerSlot : SlotTag where
  attributes := [footerAttribute]
  last := ['/']
  nodup_names := by decide
  inLast_last := List.all_eq_true.1 (by decide)

/-- The footer, if there is one. -/
def conditionalFooterSlot : SlotTag where
  attributes := [conditionAttribute, footerAttribute]
  last := []
  nodup_names := by decide
  inLast_last := List.all_eq_true.1 (by decide)

/-- The footer is a slot of its own behind the default one. -/
theorem slots_recorded_footer :
    let src := "<slot></slot>\n  <slot name=\"footer\"/>\n".toList
    (lines src)[1]? = some ("  ".toList ++ (footerSlot.chars ++ [])) ∧
      slotsOf src = [⟨"default", 1⟩, ⟨"footer", 2⟩] ∧
      ∀ name : String, 2 ∈ linesWith slotAt src name ↔ name = "footer" := by
  intro src
  have hline : (lines src)[1]? = some ("  ".toList ++ (footerSlot.chars ++ [])) := by decide
  have hslots : slotsOf src = [⟨"default", 1⟩, ⟨"footer", 2⟩] := by decide
  exact ⟨hline, hslots, (slots_recorded src footerSlot hline (by decide) (by decide)).1⟩

/-- Behind another attribute the name is not read. -/
theorem slotsOf_conditionalFooter :
    let src := conditionalFooterSlot.chars ++ ['\n']
    lines src = [conditionalFooterSlot.chars] ∧ conditionalFooterSlot.slot = "footer".toList ∧
      slotsOf src = [⟨"default", 1⟩] ∧ slotsOf src ≠ [⟨"footer", 1⟩] := by decide

end Templates
end ProjectIndex.Components
