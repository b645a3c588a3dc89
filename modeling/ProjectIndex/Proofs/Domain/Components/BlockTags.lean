import ProjectIndex.Domain.Components.TemplateScan
import ProjectIndex.Proofs.Grammar.Twig.Naming
import ProjectIndex.Proofs.Text.Search
import ProjectIndex.Proofs.Tree.Reading

/-!
The block tags that are found in a template line by line: those with nothing but a name in them,
written on one line. Such a tag has its only opening brace in front and its only closing brace at its
end. So the tags of a text are those of its parts, wherever it is cut behind a closing brace, in front
of an opening one or at the end of a line.
-/
namespace ProjectIndex.Components

open ProjectIndex.Text
open ProjectIndex.Twig (BlockName)

def placeOf (src : Source) (n : BlockName) : NamedPlace :=
  ⟨String.ofList n.chars, (pointOf src n.start).line⟩

def isInlineBlank (c : Char) : Bool := isBlank c && c != '\n'

/-- A block tag with nothing but a name, on one line. -/
structure BlockTag where
  before : List Char
  between : List Char
  name : List Char
  after : List Char
  blank_before : ∀ c ∈ before, isInlineBlank c = true
  isRun_between : IsRun isInlineBlank between
  isRun_name : IsRun isWord name
  blank_after : ∀ c ∈ after, isInlineBlank c = true

section Classes

variable {c : Char}

theorem isBlank_of_isInlineBlank (h : isInlineBlank c = true) : isBlank c = true :=
  (Bool.and_eq_true_iff.1 h).1

theorem isInlineBlank_of_isBlank (h : isBlank c = true) (hc : c ≠ '\n') : isInlineBlank c = true :=
  Bool.and_eq_true_iff.2 ⟨h, bne_iff_ne.2 hc⟩

theorem isInlineBlank_of_not (h : isBlank c = false) : isInlineBlank c = false := by
  rw [isInlineBlank, h, Bool.false_and]

def blankPoints : List Nat :=
  [9, 10, 11, 12, 13, 0x20, 0x85, 0xA0, 0x1680, 0x2000, 0x2001, 0x2002, 0x2003, 0x2004, 0x2005, 0x2006,
    0x2007, 0x2008, 0x2009, 0x200A, 0x2028, 0x2029, 0x202F, 0x205F, 0x3000]

theorem mem_blankPoints (h : isBlank c = true) : c.toNat ∈ blankPoints := by
  simp only [isBlank, Bool.or_eq_true, Bool.and_eq_true, decide_eq_true_eq, beq_iff_eq] at h
  simp only [blankPoints, List.mem_cons, List.not_mem_nil, or_false]
  omega

theorem isWord_of_isBlank (h : isBlank c = true) : isWord c = false := by
  have hnone : ∀ n ∈ blankPoints, (wordRanges.any fun r => r.1 ≤ n && n ≤ r.2) = false := by
    decide +kernel
  exact hnone c.toNat (mem_blankPoints h)

theorem isBlank_of_isWord (h : isWord c = true) : isBlank c = false := by
  rw [← Bool.not_eq_true]
  exact fun hblank => Bool.false_ne_true ((isWord_of_isBlank hblank).symm.trans h)

def inTag (c : Char) : Bool := isInlineBlank c || isWord c

end Classes

namespace BlockTag

def body (tag : BlockTag) : List Char :=
  tag.before ++ ("block".toList ++ (tag.between ++ (tag.name ++ tag.after)))

def chars (tag : BlockTag) : List Char := '\x7b' :: '%' :: (tag.body ++ ['%', '\x7d'])

def lead (tag : BlockTag) : List Char :=
  '\x7b' :: '%' :: (tag.before ++ ("block".toList ++ tag.between))

def nameAt (tag : BlockTag) (pos : Nat) : BlockName := ⟨pos, pos + byteLength tag.lead, tag.name⟩

section Parts

variable (tag : BlockTag) {c : Char} {u v : List Char}

theorem chars_eq_lead : tag.chars = tag.lead ++ (tag.name ++ (tag.after ++ ['%', '\x7d'])) := by
  simp [chars, body, lead]

theorem chars_append (rest : List Char) :
    tag.chars ++ rest = '\x7b' :: '%' :: (tag.before ++ ("block".toList ++ (tag.between ++
      (tag.name ++ (tag.after ++ '%' :: '\x7d' :: rest))))) := by
  simp [chars, body]

theorem inTag_of_mem_body (h : c ∈ tag.body) : inTag c = true := by
  have hblank : isInlineBlank c = true → inTag c = true := fun hc => by rw [inTag, hc, Bool.true_or]
  have hword : isWord c = true → inTag c = true := fun hc => by rw [inTag, hc, Bool.or_true]
  have hkeyword : ∀ d ∈ "block".toList, inTag d = true := List.all_eq_true.1 (by decide +kernel)
  simp only [body, List.mem_append] at h
  rcases h with h | h | h | h | h
  · exact hblank (tag.blank_before c h)
  · exact hkeyword c h
  · exact hblank (tag.isRun_between.2 c h)
  · exact hword (tag.isRun_name.2 c h)
  · exact hblank (tag.blank_after c h)

theorem notMem_body (h : inTag c = false) : c ∉ tag.body := fun hmem =>
  Bool.false_ne_true (h.symm.trans (tag.inTag_of_mem_body hmem))

theorem newline_notMem : '\n' ∉ tag.chars := by
  have hbody := tag.notMem_body (c := '\n') (by decide +kernel)
  simp [chars, hbody]

theorem open_notMem : '\x7b' ∉ '%' :: (tag.body ++ ['%', '\x7d']) := by
  have hbody := tag.notMem_body (c := '\x7b') (by decide +kernel)
  simp [hbody]

theorem close_notMem : '\x7d' ∉ '\x7b' :: '%' :: (tag.body ++ ['%']) := by
  have hbody := tag.notMem_body (c := '\x7d') (by decide +kernel)
  simp [hbody]

theorem open_first {tag : BlockTag} (h : tag.chars = u ++ '\x7b' :: v) : u = [] := by
  cases u with
  | nil => rfl
  | cons d u =>
    rw [chars, List.cons_append] at h
    refine absurd ?_ tag.open_notMem
    rw [(List.cons.inj h).2]
    exact List.mem_append_right _ (List.mem_cons_self ..)

theorem close_last {tag : BlockTag} (h : tag.chars = u ++ '\x7d' :: v) : v = [] := by
  have hchars : tag.chars = '\x7b' :: '%' :: (tag.body ++ ['%']) ++ ['\x7d'] := by simp [chars]
  rw [hchars] at h
  rcases List.append_eq_append_iff.1 h with ⟨a, ha, hv⟩ | ⟨a, ha, hv⟩
  · cases a with
    | nil => exact (List.cons.inj hv).2.symm
    | cons d a => simp at hv
  · cases a with
    | nil => exact (List.cons.inj hv).2
    | cons d a =>
      refine absurd ?_ tag.close_notMem
      rw [ha, (List.cons.inj hv).1]
      exact List.mem_append_right _ (List.mem_cons_self ..)

theorem head_name (rest : List Char) : ∀ d ∈ (tag.name ++ rest).head?, isBlank d = false := by
  obtain ⟨c, name, hname⟩ := List.exists_cons_of_ne_nil tag.isRun_name.1
  have hword : isWord c = true := tag.isRun_name.2 c (hname ▸ List.mem_cons_self ..)
  rw [hname]
  exact forall_mem_head?_cons (isBlank_of_isWord hword)

theorem head_after (rest : List Char) : ∀ d ∈ (tag.after ++ '%' :: rest).head?, isWord d = false := by
  cases hafter : tag.after with
  | nil => exact forall_mem_head?_cons (by decide +kernel)
  | cons c after =>
    have hblank := tag.blank_after c (hafter ▸ List.mem_cons_self ..)
    exact forall_mem_head?_cons (isWord_of_isBlank (isBlank_of_isInlineBlank hblank))

end Parts
end BlockTag

section Reader

variable {s u v rest : List Char} {tag : BlockTag} {c : Char} {pos : Nat}

theorem isInlineBlank_of_mem_takeWhile {c : Char} (h : c ∈ s.takeWhile isInlineBlank) :
    isInlineBlank c = true :=
  List.all_eq_true.1 List.all_takeWhile c h

def tagAt? (s : List Char) : Option BlockTag :=
  let before := (s.drop 2).takeWhile isInlineBlank
  let keyword := (s.drop 2).dropWhile isInlineBlank
  let between := (keyword.drop 5).takeWhile isInlineBlank
  let first := (keyword.drop 5).dropWhile isInlineBlank
  let name := first.takeWhile isWord
  let after := (first.dropWhile isWord).takeWhile isInlineBlank
  if h : between ≠ [] ∧ name ≠ [] then
    let tag : BlockTag :=
      { before, between, name, after
        blank_before := fun _ => isInlineBlank_of_mem_takeWhile
        isRun_between := ⟨h.1, fun _ => isInlineBlank_of_mem_takeWhile⟩
        isRun_name := ⟨h.2, List.all_eq_true.1 List.all_takeWhile⟩
        blank_after := fun _ => isInlineBlank_of_mem_takeWhile }
    if tag.chars.isPrefixOf s then some tag else none
  else none

theorem tagAt?_append (tag : BlockTag) (rest : List Char) : tagAt? (tag.chars ++ rest) = some tag := by
  have hprefix : tag.chars.isPrefixOf (tag.chars ++ rest) = true :=
    List.isPrefixOf_iff_prefix.2 (List.prefix_append ..)
  have hbefore := takeWhile_run tag.blank_before
    ("block".toList ++ (tag.between ++ (tag.name ++ (tag.after ++ '%' :: '\x7d' :: rest))))
    (forall_mem_head?_cons (by decide))
  have hbetween := takeWhile_run tag.isRun_between.2 _ fun d hd =>
    isInlineBlank_of_not (tag.head_name (tag.after ++ '%' :: '\x7d' :: rest) d hd)
  have hname := takeWhile_run tag.isRun_name.2 _ (tag.head_after ('\x7d' :: rest))
  have hafter := takeWhile_run tag.blank_after ('%' :: '\x7d' :: rest)
    (forall_mem_head?_cons (by decide))
  have hdrop : (tag.chars ++ rest).drop 2 = tag.before ++ ("block".toList ++ (tag.between ++
      (tag.name ++ (tag.after ++ '%' :: '\x7d' :: rest)))) := by
    rw [tag.chars_append]
    rfl
  have hkeyword (x : List Char) : ("block".toList ++ x).drop 5 = x := rfl
  unfold tagAt?
  simp only [hdrop, hbefore, hkeyword, hbetween, hname, hafter.1]
  rw [dif_pos ⟨tag.isRun_between.1, tag.isRun_name.1⟩, if_pos hprefix]

theorem prefix_of_tagAt? (h : tagAt? s = some tag) : tag.chars <+: s := by
  unfold tagAt? at h
  dsimp only at h
  split at h
  · split at h
    · next hprefix =>
      cases h
      exact List.isPrefixOf_iff_prefix.1 hprefix
    · cases h
  · cases h

theorem tagAt?_eq_some : tagAt? s = some tag ↔ tag.chars <+: s := by
  refine ⟨prefix_of_tagAt?, ?_⟩
  rintro ⟨rest, rfl⟩
  exact tagAt?_append tag rest

def namesFrom (pos : Nat) : List Char → List BlockName
  | [] => []
  | c :: s => ((tagAt? (c :: s)).map fun tag => tag.nameAt pos).toList ++ namesFrom (pos + c.utf8Size) s

theorem mem_namesFrom {n : BlockName} :
    n ∈ namesFrom pos s ↔
      ∃ (u : List Char) (tag : BlockTag) (w : List Char), s = u ++ (tag.chars ++ w) ∧
        n = tag.nameAt (pos + byteLength u) := by
  induction s generalizing pos with
  | nil =>
    refine ⟨nofun, ?_⟩
    rintro ⟨u, tag, w, hs, _⟩
    simp [BlockTag.chars] at hs
  | cons c s ih =>
    rw [namesFrom, List.mem_append, ih, Option.mem_toList, Option.map_eq_some_iff]
    constructor
    · rintro (⟨tag, htag, rfl⟩ | ⟨u, tag, w, rfl, rfl⟩)
      · obtain ⟨w, hw⟩ := tagAt?_eq_some.1 htag
        exact ⟨[], tag, w, hw.symm, rfl⟩
      · exact ⟨c :: u, tag, w, rfl, by rw [byteLength_cons, Nat.add_assoc]⟩
    · rintro ⟨u, tag, w, hs, rfl⟩
      cases u with
      | nil => exact .inl ⟨tag, tagAt?_eq_some.2 ⟨w, hs.symm⟩, rfl⟩
      | cons d u =>
        obtain ⟨rfl, rfl⟩ := List.cons.inj hs
        exact .inr ⟨u, tag, w, rfl, by rw [byteLength_cons, Nat.add_assoc]⟩

theorem namesFrom_eq_nil_iff : namesFrom pos s = [] ↔ ∀ tag : BlockTag, ¬ tag.chars <:+: s := by
  rw [List.eq_nil_iff_forall_not_mem]
  constructor
  · rintro h tag ⟨u, w, rfl⟩
    exact h _ (mem_namesFrom.2 ⟨u, tag, w, List.append_assoc .., rfl⟩)
  · intro h n hn
    obtain ⟨u, tag, w, rfl, _⟩ := mem_namesFrom.1 hn
    exact h tag ⟨u, w, List.append_assoc ..⟩

theorem namesFrom_of_notMem (h : '\x7b' ∉ s) : namesFrom pos s = [] := by
  rw [namesFrom_eq_nil_iff]
  rintro tag ⟨u, w, rfl⟩
  simp [BlockTag.chars] at h

/-- Whether no tag begins in the one text and ends in the other behind it. -/
def Parted (u v : List Char) : Prop :=
  ∀ (tag : BlockTag) (x y : List Char), tag.chars = x ++ y → x <:+ u → y <+: v → x = [] ∨ y = []

theorem Parted.tail (h : Parted (c :: u) v) : Parted u v := fun tag x y hsplit hx =>
  h tag x y hsplit (hx.trans (List.suffix_cons c u))

theorem Parted.tagAt?_eq (h : Parted (c :: u) v) : tagAt? (c :: u ++ v) = tagAt? (c :: u) := by
  ext tag
  rw [tagAt?_eq_some, tagAt?_eq_some]
  refine ⟨fun hprefix => ?_, fun hprefix => hprefix.trans (List.prefix_append ..)⟩
  obtain ⟨rest, hrest⟩ := hprefix
  rcases List.append_eq_append_iff.1 hrest with ⟨y, hy, _⟩ | ⟨y, hchars, hv⟩
  · exact ⟨y, hy.symm⟩
  · have hy := (h tag _ y hchars List.suffix_rfl ⟨rest, hv.symm⟩).resolve_left (List.cons_ne_nil c u)
    exact ⟨[], by rw [hchars, hy, List.append_nil, List.append_nil]⟩

theorem namesFrom_append (h : Parted u v) :
    namesFrom pos (u ++ v) = namesFrom pos u ++ namesFrom (pos + byteLength u) v := by
  induction u generalizing pos with
  | nil => rfl
  | cons c u ih =>
    have hhere : tagAt? (c :: (u ++ v)) = tagAt? (c :: u) := h.tagAt?_eq
    rw [List.cons_append, namesFrom, namesFrom, hhere, ih h.tail, byteLength_cons, List.append_assoc,
      Nat.add_assoc]

theorem parted_of_closed (u v : List Char) : Parted (u ++ ['\x7d']) v := by
  intro tag x y hsplit hx _
  rcases List.eq_nil_or_concat x with rfl | ⟨x, d, rfl⟩
  · exact .inl rfl
  · obtain ⟨a, ha⟩ := hx
    rw [List.concat_eq_append, ← List.append_assoc] at ha
    obtain ⟨_, hd⟩ := List.append_inj' ha rfl
    rw [List.concat_eq_append, hd, List.append_assoc] at hsplit
    exact .inr (BlockTag.close_last hsplit)

theorem parted_of_head (hc : c = '\x7b' ∨ c = '\n') (u v : List Char) : Parted u (c :: v) := by
  rintro tag x y hsplit _ ⟨rest, hrest⟩
  cases y with
  | nil => exact .inr rfl
  | cons d y =>
    obtain rfl : d = c := (List.cons.inj hrest).1
    rcases hc with rfl | rfl
    · exact .inl (BlockTag.open_first hsplit)
    · refine absurd ?_ tag.newline_notMem
      rw [hsplit]
      exact List.mem_append_right _ (List.mem_cons_self ..)

theorem parted_nil (u : List Char) : Parted u [] := fun _ _ _ _ _ hy => .inr (List.prefix_nil.1 hy)

theorem namesFrom_chars_append (tag : BlockTag) (rest : List Char) :
    namesFrom pos (tag.chars ++ rest) =
      tag.nameAt pos :: namesFrom (pos + byteLength tag.chars) rest := by
  have hparted : Parted tag.chars rest := by
    have hchars : tag.chars = '\x7b' :: '%' :: (tag.body ++ ['%']) ++ ['\x7d'] := by
      simp [BlockTag.chars]
    rw [hchars]
    exact parted_of_closed _ rest
  have hhere : tagAt? tag.chars = some tag := tagAt?_eq_some.2 List.prefix_rfl
  have halone : namesFrom pos tag.chars = [tag.nameAt pos] := by
    rw [BlockTag.chars] at hhere ⊢
    rw [namesFrom, hhere, namesFrom_of_notMem tag.open_notMem]
    rfl
  rw [namesFrom_append hparted, halone]
  rfl

/-- The reader of a line reads a tag where one stands, and nothing else. -/
theorem blockAt_append (tag : BlockTag) (rest : List Char) :
    blockAt (tag.chars ++ rest) = some (tag.name, rest) := by
  have hblank {run : List Char} (h : ∀ c ∈ run, isInlineBlank c = true) : ∀ c ∈ run, isBlank c = true :=
    fun c hc => isBlank_of_isInlineBlank (h c hc)
  have hbefore := takeWhile_run (hblank tag.blank_before)
    ("block".toList ++ (tag.between ++ (tag.name ++ (tag.after ++ '%' :: '\x7d' :: rest))))
    (forall_mem_head?_cons (by decide))
  have hbetween : IsRun isBlank tag.between := ⟨tag.isRun_between.1, hblank tag.isRun_between.2⟩
  have hafter := takeWhile_run (hblank tag.blank_after) ('%' :: '\x7d' :: rest)
    (forall_mem_head?_cons (by decide))
  have hopen (x : List Char) : dropStart? ['\x7b', '%'] ('\x7b' :: '%' :: x) = some x :=
    dropStart?_append ['\x7b', '%'] x
  have hclose : dropStart? ['%', '\x7d'] ('%' :: '\x7d' :: rest) = some rest :=
    dropStart?_append ['%', '\x7d'] rest
  simp only [blockAt, Option.bind_eq_bind, tag.chars_append, hopen, Option.bind_some, hbefore.2,
    dropStart?_append, hbetween.run?_append (tag.head_name _),
    tag.isRun_name.run?_append (tag.head_after ('\x7d' :: rest)), hafter.2, hclose]

theorem exists_tag_of_blockAt {name : List Char} (hline : '\n' ∉ s)
    (h : blockAt s = some (name, rest)) : ∃ tag : BlockTag, s = tag.chars ++ rest ∧ tag.name = name := by
  simp only [blockAt, Option.bind_eq_bind, Option.bind_eq_some_iff] at h
  obtain ⟨s₁, hopen, s₂, hkeyword, ⟨between, s₃⟩, hbetween, ⟨word, s₄⟩, hword, s₅, hclose, hsome⟩ := h
  obtain ⟨rfl, rfl⟩ := Prod.mk.inj (Option.some.inj hsome)
  have hs₁ : s₁ = s₁.takeWhile isBlank ++ ("block".toList ++ s₂) := by
    rw [← eq_append_of_dropStart? hkeyword, List.takeWhile_append_dropWhile]
  have hs₄ : s₄ = s₄.takeWhile isBlank ++ (['%', '\x7d'] ++ s₅) := by
    rw [← eq_append_of_dropStart? hclose, List.takeWhile_append_dropWhile]
  obtain ⟨hs₂, hbetween⟩ := eq_append_of_run? hbetween
  obtain ⟨hs₃, hword⟩ := eq_append_of_run? hword
  have hs : s = ['\x7b', '%'] ++ (s₁.takeWhile isBlank ++ ("block".toList ++ (between ++ (word ++
      (s₄.takeWhile isBlank ++ (['%', '\x7d'] ++ s₅)))))) := by
    rw [eq_append_of_dropStart? hopen, ← hs₄, ← hs₃, ← hs₂, ← hs₁]
  have hinline {run : List Char} (hrun : ∀ c ∈ run, isBlank c = true) (hmem : ∀ c ∈ run, c ∈ s) :
      ∀ c ∈ run, isInlineBlank c = true := fun c hc =>
    isInlineBlank_of_isBlank (hrun c hc) fun heq => hline (heq ▸ hmem c hc)
  have htaken (x : List Char) : ∀ c ∈ x.takeWhile isBlank, isBlank c = true :=
    List.all_eq_true.1 List.all_takeWhile
  let tag : BlockTag :=
    { before := s₁.takeWhile isBlank, between, name := word, after := s₄.takeWhile isBlank
      blank_before := hinline (htaken s₁) fun c hc => by rw [hs]; simp [hc]
      isRun_between := ⟨hbetween.1, hinline hbetween.2 fun c hc => by rw [hs]; simp [hc]⟩
      isRun_name := hword
      blank_after := hinline (htaken s₄) fun c hc => by rw [hs]; simp [hc] }
  refine ⟨tag, ?_, rfl⟩
  rw [hs, tag.chars_append]
  rfl

theorem scanFrom_blockAt (pos : Nat) (hline : '\n' ∉ s) {fuel : Nat} (hfuel : s.length ≤ fuel) :
    scanFrom blockAt fuel s = (namesFrom pos s).map BlockName.chars := by
  induction fuel generalizing s pos with
  | zero =>
    obtain rfl : s = [] := List.length_eq_zero_iff.1 (Nat.le_zero.1 hfuel)
    rfl
  | succ fuel ih =>
    cases s with
    | nil => rfl
    | cons c s =>
      rw [scanFrom]
      cases hread : blockAt (c :: s) with
      | some found =>
        obtain ⟨name, rest⟩ := found
        obtain ⟨tag, hs, rfl⟩ := exists_tag_of_blockAt hline hread
        have hrest : '\n' ∉ rest := fun hmem => hline (hs ▸ List.mem_append_right _ hmem)
        have hshorter : rest.length ≤ fuel := by
          have hlength := congrArg List.length hs
          simp only [List.length_cons, List.length_append, BlockTag.chars] at hlength hfuel
          omega
        rw [hs, namesFrom_chars_append, List.map_cons, ← ih _ hrest hshorter]
        rfl
      | none =>
        have hnone : tagAt? (c :: s) = none := by
          refine Option.eq_none_iff_forall_ne_some.2 fun tag htag => ?_
          obtain ⟨rest, hs⟩ := tagAt?_eq_some.1 htag
          rw [← hs, blockAt_append] at hread
          cases hread
        rw [namesFrom, hnone]
        exact ih _ (fun hmem => hline (List.mem_cons_of_mem c hmem))
          (Nat.le_of_succ_le_succ hfuel)

end Reader

section Lines

variable {src u l rest : List Char} {pos : Nat}

theorem namesFrom_stripped (l : List Char) :
    namesFrom pos ((dropEnd? ['\r'] l).getD l) = namesFrom pos l := by
  cases hstrip : dropEnd? ['\r'] l with
  | none => rfl
  | some body =>
    have hparted : Parted body ['\r'] := by
      intro tag x y hsplit _ hy
      rcases List.prefix_cons_iff.1 hy with rfl | ⟨z, rfl, hz⟩
      · exact .inr rfl
      · obtain rfl := List.prefix_nil.1 hz
        have hends : '\x7b' :: '%' :: (tag.body ++ ['%']) ++ ['\x7d'] = x ++ ['\r'] := by
          rw [← hsplit]
          simp [BlockTag.chars]
        exact absurd (List.append_inj' hends rfl).2 (by decide)
    rw [eq_append_of_dropEnd? hstrip, namesFrom_append hparted]
    exact (List.append_nil _).symm

theorem places_line (hl : '\n' ∉ l) (rest : List Char) (hsrc : src = u ++ (l ++ rest)) :
    ((scanAll blockAt l).map fun name => ⟨String.ofList name, u.count '\n' + 1⟩) =
      (namesFrom (byteLength u) l).map (placeOf src) := by
  rw [scanAll, scanFrom_blockAt (byteLength u) hl (Nat.le_refl l.length), List.map_map]
  refine List.map_congr_left fun n hn => ?_
  obtain ⟨x, tag, y, rfl, rfl⟩ := mem_namesFrom.1 hn
  have hbefore : (x ++ tag.lead).count '\n' = 0 := by
    refine List.count_eq_zero.2 fun hmem => hl ?_
    rw [tag.chars_eq_lead, List.append_assoc, ← List.append_assoc]
    exact List.mem_append_left _ hmem
  let behind := tag.name ++ (tag.after ++ ['%', '\x7d']) ++ (y ++ rest)
  have hsource : src = (u ++ (x ++ tag.lead)) ++ behind := by
    rw [hsrc, tag.chars_eq_lead]
    simp [behind]
  have hstart : byteLength u + byteLength x + byteLength tag.lead =
      byteLength (u ++ (x ++ tag.lead)) := by
    rw [byteLength_append, byteLength_append, Nat.add_assoc]
  have hline := line_pointOf (u ++ (x ++ tag.lead)) behind
  rw [← hsource, ← hstart, List.count_append, hbefore] at hline
  exact congrArg (NamedPlace.mk (String.ofList tag.name)) hline.symm

theorem places_stripped (hl : '\n' ∉ l) (hsrc : src = u ++ (l ++ rest)) :
    ((scanAll blockAt ((dropEnd? ['\r'] l).getD l)).map fun name =>
        ⟨String.ofList name, u.count '\n' + 1⟩) =
      (namesFrom (byteLength u) l).map (placeOf src) := by
  rw [← namesFrom_stripped l]
  cases hstrip : dropEnd? ['\r'] l with
  | none => exact places_line hl rest hsrc
  | some body =>
    have hsplit : l = body ++ ['\r'] := eq_append_of_dropEnd? hstrip
    refine places_line (fun hmem => hl ?_) ('\r' :: rest) ?_
    · rw [hsplit]
      exact List.mem_append_left _ hmem
    · rw [hsrc, hsplit, List.append_assoc]
      rfl

theorem places_lines {s : List Char} (hsrc : src = u ++ s) :
    ((lines s).zipIdx (u.count '\n')).flatMap (fun (line, i) =>
        (scanAll blockAt line).map fun name => ⟨String.ofList name, i + 1⟩) =
      (namesFrom (byteLength u) s).map (placeOf src) := by
  induction hlength : s.length using Nat.strongRecOn generalizing u s with
  | _ n ih =>
    by_cases hmem : '\n' ∈ s
    · obtain ⟨l, rest, rfl, hl⟩ := List.eq_append_cons_of_mem hmem
      have hsource : src = (u ++ (l ++ ['\n'])) ++ rest := by rw [hsrc]; simp
      have hrest := ih rest.length (by rw [← hlength]; simp; omega) hsource rfl
      have hcount : (u ++ (l ++ ['\n'])).count '\n' = u.count '\n' + 1 := by
        rw [List.count_append, List.count_append, List.count_eq_zero.2 hl]
        rfl
      have hbytes : byteLength (u ++ (l ++ ['\n'])) = byteLength u + byteLength l + 1 := by
        rw [byteLength_append, byteLength_append, Nat.add_assoc]
        rfl
      -- no tag opens with the line feed itself
      have hfeed : namesFrom (byteLength u + byteLength l) ('\n' :: rest) =
          namesFrom (byteLength u + byteLength l + 1) rest := by
        have hparted : Parted ['\n'] rest := by
          intro tag x y hsplit hx _
          rcases List.suffix_cons_iff.1 hx with rfl | hnil
          · cases hsplit
          · exact .inl (List.suffix_nil.1 hnil)
        exact namesFrom_append hparted
      rw [lines_append hl, List.zipIdx_cons, List.flatMap_cons, ← hcount, hrest,
        namesFrom_append (parted_of_head (.inr rfl) l rest), List.map_append, hfeed, hbytes]
      exact congrArg (· ++ _) (places_stripped hl hsrc)
    · rw [lines_of_notMem hmem]
      split
      · next hnil =>
        subst hnil
        rfl
      · exact (List.append_nil _).trans (places_line hmem [] (by rw [hsrc, List.append_nil]))

/-- The blocks recorded of a template are its tags, each name by the first of them. -/
theorem blocksOf_eq (src : Source) :
    blocksOf src = distinctPlaces ((namesFrom 0 src).map (placeOf src)) :=
  congrArg distinctPlaces (places_lines (u := []) rfl)

end Lines
end ProjectIndex.Components
