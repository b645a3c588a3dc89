import ProjectIndex.Proofs.Domain.Components.BlockTags
import ProjectIndex.Proofs.Domain.Templates.Inventory
import ProjectIndex.Proofs.Grammar.Twig.Naming
import ProjectIndex.Proofs.Grammar.Twig.Template

/-!
The blocks recorded of a component's template, against the blocks of its tree. The one list comes from
the tags found line by line, the other from the parser. They agree segment by segment: where a block is
opened by a tag with nothing but its name, on one line, and where nothing that looks like such a tag
stands in a comment, an output or another statement. Blanks trimmed by a hyphen, a body written inline
and a tag over several lines are read by the parser only.
-/
namespace ProjectIndex.Components

open ProjectIndex.Text ProjectIndex.Twig
open ProjectIndex.Shape (Laid Hereditary)

section Tree

def treeNames (src : Source) : List BlockName :=
  let t := parse src
  (t.descendants t.root).filterMap (nameOf? t src)

def treeBlocks (src : Source) : List NamedPlace :=
  let t := parse src
  (Templates.namedBlock.findAll t src t.root).filterMap fun i =>
    (t.childOfKind? i "identifier").map fun c => ⟨textString t src c, t.line c⟩

variable {src : Source}

theorem line_eq {i : Nat} (hi : i < (parse src).size) :
    (parse src).line i = (pointOf src ((parse src).node i).startByte).line := by
  obtain ⟨done, _, _, hsize, hlaid⟩ := parse_placed src
  have hall : Hereditary fun _ => True := fun _ _ _ _ => trivial
  obtain ⟨_, s, _, _, hs⟩ := hlaid.part hall trivial (Nat.zero_le i) (by omega)
  rw [hs.line_eq, (Shape.laid_iff.1 hs).1]
  rfl

theorem treeBlocks_eq (src : Source) : treeBlocks src = (treeNames src).map (placeOf src) := by
  let t := parse src
  obtain ⟨_, _, _, _, _, _, _, hcovers⟩ := parse_safe src
  rw [treeBlocks, treeNames, List.map_filterMap, Pattern.findAll, List.filterMap_filter]
  refine List.filterMap_congr fun i hi => ?_
  have hfound : Templates.namedBlock.matchesNode t src i = true ↔
      t.kind i = "block" ∧ (Templates.blockName? t src i).isSome = true := by
    have hmem := @Templates.mem_findAll_namedBlock src i
    rw [Pattern.findAll, List.mem_filter] at hmem
    exact ⟨fun h => (hmem.1 ⟨hi, h⟩).2, fun h => (hmem.2 ⟨Templates.lt_of_mem_descendants hi, h⟩).2⟩
  rw [nameOf?]
  by_cases hkind : t.kind i = "block"
  · rw [if_pos hkind]
    cases hchild : t.childOfKind? i "identifier" with
    | none =>
      have hnone : ¬ Templates.namedBlock.matchesNode t src i = true := by
        rw [hfound, Templates.blockName?, hchild]
        rintro ⟨_, h⟩
        cases h
      rw [if_neg hnone]
      rfl
    | some c =>
      have hname : Templates.namedBlock.matchesNode t src i = true := by
        rw [hfound, Templates.blockName?, hchild]
        exact ⟨hkind, rfl⟩
      have hmem : c ∈ t.children i := List.mem_of_find?_eq_some hchild
      have hline := line_eq (hcovers.child i c (Templates.lt_of_mem_descendants hi) hmem).2.1
      rw [if_pos hname, Option.map_some, Option.map_some, Option.map_some, hline]
      rfl
  · rw [if_neg hkind, if_neg fun h => hkind (hfound.1 h).1]
    rfl

end Tree

section Alike

/-- Whether a tag is read as that of a block by the parser too: in front of the keyword stand ASCII
blanks only, and the name is an identifier. -/
def BlockTag.Plain (tag : BlockTag) : Prop :=
  (∀ c ∈ tag.before, isAsciiBlank c = true) ∧ IsIdentifier tag.name

/-- Whether a segment shows the same blocks in both ways: none at all, or just the one whose tag it is. -/
def Alike (s : Segment) : Prop :=
  (s.blockName? 0 = none ∧ ∀ tag : BlockTag, ¬ tag.chars <:+: s.chars) ∨
    ∃ tag : BlockTag, tag.Plain ∧ s = .statement tag.body true

variable {tag : BlockTag} {s rest body : List Char} {c : Char} {pos n : Nat}

theorem not_inIdentifier_of_isBlank (h : isBlank c = true) : inIdentifier c = false := by
  have hnone : ∀ n ∈ blankPoints, inIdentifier (Char.ofNat n) = false := by decide
  have hchar := hnone c.toNat (mem_blankPoints h)
  rwa [Char.ofNat_toNat] at hchar

theorem not_isQuote_of_isBlank (h : isBlank c = true) : isQuote c = false :=
  isQuote_eq_false h (by decide) (by decide)

theorem not_startsIdentifier_of_isBlank (h : isBlank c = true) : startsIdentifier c = false := by
  rw [← Bool.not_eq_true]
  intro hc
  exact Bool.false_ne_true ((not_inIdentifier_of_isBlank h).symm.trans (inIdentifier_of_starts hc))

theorem tokenize_blanks (h : ∀ c ∈ s, isAsciiBlank c = true) (rest : List Char) :
    tokenize pos (s ++ rest) = tokenize (pos + byteLength s) rest := by
  induction s generalizing pos with
  | nil => rfl
  | cons c s ih =>
    obtain ⟨hc, hs⟩ := List.forall_mem_cons.1 h
    have hgap : isGap c = true := by rw [isGap, hc, Bool.true_or]
    rw [List.cons_append, tokenize, if_pos hgap, ih hs, byteLength_cons, Nat.add_assoc]

theorem firstName?_blanks (h : ∀ c ∈ s, isInlineBlank c = true) (rest : List Char) :
    firstName? n (tokenize pos (s ++ rest)) = firstName? n (tokenize (pos + byteLength s) rest) := by
  induction s generalizing pos with
  | nil => rfl
  | cons c s ih =>
    obtain ⟨hc, hs⟩ := List.forall_mem_cons.1 h
    have hblank := isBlank_of_isInlineBlank hc
    rw [List.cons_append, firstName?_cons (not_isQuote_of_isBlank hblank)
      (not_startsIdentifier_of_isBlank hblank), ih hs, byteLength_cons, Nat.add_assoc]

theorem isAsciiBlank_of_statementName? (hs : ∀ c ∈ s, isInlineBlank c = true)
    (h : (statementName? n (tokenize pos (s ++ rest))).isSome = true) :
    ∀ c ∈ s, isAsciiBlank c = true := by
  induction s generalizing pos with
  | nil => exact List.forall_mem_nil _
  | cons c s ih =>
    obtain ⟨hc, hrest⟩ := List.forall_mem_cons.1 hs
    have hblank := isBlank_of_isInlineBlank hc
    cases hgap : isGap c with
    | true =>
      have hascii : isAsciiBlank c = true := by
        rw [isGap, Bool.or_eq_true, beq_iff_eq] at hgap
        refine hgap.resolve_right ?_
        rintro rfl
        cases hblank
      rw [List.cons_append, tokenize, if_pos hgap] at h
      exact List.forall_mem_cons.2 ⟨hascii, ih hrest h⟩
    | false =>
      rw [List.cons_append, tokenize, hgap, not_isQuote_of_isBlank hblank,
        not_startsIdentifier_of_isBlank hblank] at h
      cases h

theorem blockName?_plain (h : tag.Plain) (pos : Nat) :
    Segment.blockName? pos (.statement tag.body true) = some (tag.nameAt pos) := by
  obtain ⟨hbefore, hname⟩ := h
  have hkeyword : IsIdentifier "block".toList := by decide
  have hbetween : ∀ d ∈ (tag.between ++ (tag.name ++ tag.after)).head?, inIdentifier d = false := by
    obtain ⟨c, between, heq⟩ := List.exists_cons_of_ne_nil tag.isRun_between.1
    have hc := tag.isRun_between.2 c (heq ▸ List.mem_cons_self ..)
    rw [heq]
    exact forall_mem_head?_cons (not_inIdentifier_of_isBlank (isBlank_of_isInlineBlank hc))
  have hafter : ∀ d ∈ tag.after.head?, inIdentifier d = false := by
    intro d hd
    have hmem := tag.blank_after d (List.mem_of_mem_head? hd)
    exact not_inIdentifier_of_isBlank (isBlank_of_isInlineBlank hmem)
  have hlead : pos + 2 + byteLength tag.before + byteLength "block".toList + byteLength tag.between =
      pos + byteLength tag.lead := by
    rw [BlockTag.lead, byteLength_cons, byteLength_cons, byteLength_append, byteLength_append]
    change _ = pos + (1 + (1 + _))
    omega
  rw [Segment.blockName?, BlockTag.body, tokenize_blanks hbefore, tokenize_identifier hkeyword hbetween,
    statementName?]
  change firstName? pos _ = _
  rw [firstName?_blanks tag.isRun_between.2, tokenize_identifier hname hafter, hlead]
  rfl

theorem statementBody?_body (tag : BlockTag) (rest : List Char) :
    statementBody? none (tag.body ++ '%' :: '\x7d' :: rest) = some (tag.body, rest) := by
  have hpasses : Passes tag.body := passes_chars fun c hc => by
    have hin := tag.inTag_of_mem_body hc
    constructor
    · rw [← Bool.not_eq_true, isQuote, Bool.or_eq_true, beq_iff_eq, beq_iff_eq]
      rintro (rfl | rfl)
      · exact absurd hin (by decide +kernel)
      · exact absurd hin (by decide +kernel)
    · rintro rfl
      exact absurd hin (by decide +kernel)
  have hend : statementBody? none ('%' :: '\x7d' :: rest) = some ([], rest) := rfl
  rw [hpasses, hend, Option.map_some, List.append_nil]

theorem tag_of_firstName? {ts : List Token} {m : BlockName} (h : firstName? n ts = some m) :
    m.tag = n ∧ ∃ t ∈ ts, t.isIdentifier = true ∧ m.chars = t.chars := by
  obtain ⟨t, ht, rfl⟩ := Option.map_eq_some_iff.1 h
  exact ⟨rfl, t, List.mem_of_find?_eq_some ht, List.find?_some ht, rfl⟩

theorem tag_of_statementName? {ts : List Token} {m : BlockName} (h : statementName? n ts = some m) :
    m.tag = n ∧ ∃ t ∈ ts, t.isIdentifier = true ∧ m.chars = t.chars := by
  cases ts with
  | nil => cases h
  | cons t ts =>
    rw [statementName?] at h
    split at h
    · obtain ⟨htag, u, hu, hword⟩ := tag_of_firstName? h
      exact ⟨htag, u, List.mem_cons_of_mem t hu, hword⟩
    · cases h

theorem tag_of_blockName? {seg : Segment} {m : BlockName} (h : seg.blockName? pos = some m) :
    m.tag = pos ∧ IsIdentifier m.chars ∧ ∃ body, seg = .statement body true := by
  cases seg with
  | statement body closed =>
    cases closed with
    | false => cases h
    | true =>
      obtain ⟨htag, t, ht, hword, hchars⟩ := tag_of_statementName? h
      exact ⟨htag, hchars ▸ isIdentifier_of_mem_tokenize ht hword, body, rfl⟩
  | _ => cases h

theorem plain_of_nameAt {w : List Char} (hchars : (Segment.statement body true).chars = tag.chars ++ w)
    (hbody : statementBody? none (body ++ '%' :: '\x7d' :: rest) = some (body, rest))
    (hname : Segment.blockName? pos (.statement body true) = some (tag.nameAt n)) :
    tag.Plain ∧ body = tag.body := by
  have hinside : body ++ ['%', '\x7d'] = tag.body ++ '%' :: '\x7d' :: w := by
    rw [Segment.chars, BlockTag.chars, if_pos rfl] at hchars
    simpa using hchars
  have hsame : body = tag.body := by
    have hread := statementBody?_body tag (w ++ rest)
    have htext : tag.body ++ '%' :: '\x7d' :: (w ++ rest) = body ++ '%' :: '\x7d' :: rest := by
      have happend := congrArg (· ++ rest) hinside
      simpa using happend.symm
    rw [htext, hbody] at hread
    exact (Prod.mk.inj (Option.some.inj hread)).1
  refine ⟨⟨?_, (tag_of_blockName? hname).2.1⟩, hsame⟩
  rw [hsame, Segment.blockName?, BlockTag.body] at hname
  exact isAsciiBlank_of_statementName? tag.blank_before (by rw [hname]; rfl)

theorem isNone_blockName? {seg : Segment} (h : seg.blockName? pos = none) (pos' : Nat) :
    seg.blockName? pos' = none := by
  have hsome := seg.isSome_blockName? pos pos'
  rw [h] at hsome
  exact Option.isSome_eq_false_iff.1 hsome.symm |> Option.isNone_iff_eq_none.1

theorem namesFrom_eq_iff_of_none {seg : Segment} (h : seg.blockName? pos = none) :
    namesFrom pos seg.chars = (seg.blockName? pos).toList ↔ Alike seg := by
  rw [h, Option.toList_none, namesFrom_eq_nil_iff]
  constructor
  · exact fun hnone => .inl ⟨isNone_blockName? h 0, hnone⟩
  · rintro (⟨_, hnone⟩ | ⟨tag, hplain, rfl⟩)
    · exact hnone
    · rw [blockName?_plain hplain] at h
      cases h

theorem namesFrom_eq_iff_statement
    (hbody : statementBody? none (body ++ '%' :: '\x7d' :: rest) = some (body, rest)) :
    namesFrom pos (Segment.statement body true).chars =
      (Segment.blockName? pos (.statement body true)).toList ↔ Alike (.statement body true) := by
  cases hname : Segment.blockName? pos (.statement body true) with
  | none =>
    rw [← hname]
    exact namesFrom_eq_iff_of_none hname
  | some m =>
    constructor
    · intro hsame
      have hmem : m ∈ namesFrom pos (Segment.statement body true).chars := by
        rw [hsame]
        exact List.mem_singleton_self m
      obtain ⟨u, tag, w, hchars, rfl⟩ := mem_namesFrom.1 hmem
      -- both readers name it by the byte where its tag starts
      have hstart : pos + byteLength u = pos := (tag_of_blockName? hname).1
      obtain rfl : u = [] := by
        have hlength := length_le_byteLength u
        exact List.length_eq_zero_iff.1 (by omega)
      obtain ⟨hplain, rfl⟩ := plain_of_nameAt hchars hbody hname
      exact .inr ⟨tag, hplain, rfl⟩
    · rintro (⟨hnone, _⟩ | ⟨tag, hplain, hseg⟩)
      · rw [isNone_blockName? hnone pos] at hname
        cases hname
      · obtain ⟨rfl, _⟩ := Segment.statement.inj hseg
        rw [blockName?_plain hplain] at hname
        have hchars : (Segment.statement tag.body true).chars = tag.chars ++ [] := by
          simp [Segment.chars, BlockTag.chars]
        rw [hchars, namesFrom_chars_append, ← Option.some.inj hname]
        rfl

end Alike

section Run

variable {s rest : List Char} {segs : List Segment} {seg : Segment} {pos k : Nat} {m : BlockName}

theorem append_eq_iff {xs ys xs' ys' : List BlockName} (hxs : ∀ m ∈ xs, m.tag < k)
    (hxs' : ∀ m ∈ xs', m.tag < k) (hys : ∀ m ∈ ys, k ≤ m.tag) (hys' : ∀ m ∈ ys', k ≤ m.tag) :
    xs ++ ys = xs' ++ ys' ↔ xs = xs' ∧ ys = ys' := by
  have hfilter {us vs : List BlockName} (hus : ∀ m ∈ us, m.tag < k) (hvs : ∀ m ∈ vs, k ≤ m.tag) :
      (us ++ vs).filter (fun m => m.tag < k) = us := by
    have hnone : vs.filter (fun m => decide (m.tag < k)) = [] := by
      rw [List.filter_eq_nil_iff]
      intro m hm hlt
      exact absurd (of_decide_eq_true hlt) (Nat.not_lt.2 (hvs m hm))
    rw [List.filter_append, hnone, List.append_nil, List.filter_eq_self]
    exact fun m hm => decide_eq_true (hus m hm)
  constructor
  · intro heq
    have hfirst : xs = xs' := by rw [← hfilter hxs hys, heq, hfilter hxs' hys']
    exact ⟨hfirst, List.append_cancel_left (hfirst ▸ heq)⟩
  · rintro ⟨rfl, rfl⟩
    rfl

theorem tag_of_mem_namesFrom (h : m ∈ namesFrom pos s) :
    pos ≤ m.tag ∧ m.tag < pos + byteLength s := by
  obtain ⟨u, tag, w, rfl, rfl⟩ := mem_namesFrom.1 h
  have hchars : 0 < byteLength tag.chars := by
    rw [BlockTag.chars, byteLength_cons]
    exact Nat.add_pos_left (Char.utf8Size_pos _) _
  rw [byteLength_append, byteLength_append]
  change pos ≤ pos + byteLength u ∧ pos + byteLength u < _
  omega

theorem le_tag_of_mem_blockNames (h : m ∈ blockNames pos segs) : pos ≤ m.tag := by
  induction segs generalizing pos with
  | nil => cases h
  | cons seg segs ih =>
    rw [blockNames, List.mem_append, Option.mem_toList] at h
    rcases h with h | h
    · exact Nat.le_of_eq (tag_of_blockName? h).1.symm
    · exact Nat.le_trans (Nat.le_add_right ..) (ih h)

theorem names_eq_iff_cons (seg : Segment) (hparted : Parted seg.chars rest)
    (hpos : 0 < byteLength seg.chars)
    (hhere : namesFrom pos seg.chars = (seg.blockName? pos).toList ↔ Alike seg)
    (hrest : namesFrom (pos + byteLength seg.chars) rest =
      blockNames (pos + byteLength seg.chars) segs ↔ ∀ seg ∈ segs, Alike seg) :
    namesFrom pos (seg.chars ++ rest) = blockNames pos (seg :: segs) ↔
      ∀ seg' ∈ seg :: segs, Alike seg' := by
  rw [namesFrom_append hparted, blockNames, append_eq_iff (k := pos + byteLength seg.chars), hhere,
    hrest, List.forall_mem_cons]
  · exact fun m hm => (tag_of_mem_namesFrom hm).2
  · intro m hm
    rw [(tag_of_blockName? (Option.mem_toList.1 hm)).1]
    omega
  · exact fun m hm => (tag_of_mem_namesFrom hm).1
  · exact fun m hm => le_tag_of_mem_blockNames hm

theorem parted_segment (d : Delimiter) (body rest : List Char) :
    Parted (d.segment body true).chars rest := by
  have hclosed : ∃ u, (d.segment body true).chars = u ++ ['\x7d'] := by
    rw [chars_segment, if_pos rfl]
    simp only [Delimiter.opening, Delimiter.closing]
    cases d with
    | comment => exact ⟨'\x7b' :: '#' :: (body ++ ['#']), by simp⟩
    | output => exact ⟨'\x7b' :: '\x7b' :: (body ++ ['\x7d']), by simp⟩
    | statement => exact ⟨'\x7b' :: '%' :: (body ++ ['%']), by simp⟩
  obtain ⟨u, hu⟩ := hclosed
  rw [hu]
  exact parted_of_closed u rest

theorem byteLength_segment_pos (d : Delimiter) (body : List Char) (closed : Bool) :
    0 < byteLength (d.segment body closed).chars := by
  rw [chars_segment, byteLength_append]
  have hopening : byteLength d.opening = 2 := by cases d <;> rfl
  omega

/-- Both readers see the same blocks of a source exactly if they do so in each of its segments. -/
theorem namesFrom_eq_iff (h : Cuts s segs) (pos : Nat) :
    namesFrom pos s = blockNames pos segs ↔ ∀ seg ∈ segs, Alike seg := by
  induction h generalizing pos with
  | done => exact ⟨fun _ => List.forall_mem_nil _, fun _ => rfl⟩
  | @text chars rest segs hne hplain hnext _ ih =>
    have hnone : ∀ tag : BlockTag, ¬ tag.chars <:+: chars := by
      rintro tag ⟨u, w, htag⟩
      refine hplain u '\x7b' ('%' :: (tag.body ++ ['%', '\x7d']) ++ w) ?_ .statement ?_
      · rw [← htag]
        simp [BlockTag.chars]
      · exact ⟨tag.body ++ ['%', '\x7d'] ++ w ++ rest, by simp [Delimiter.opening]⟩
    -- Text ends where a delimiter opens, and no tag has one inside.
    have hparted : Parted chars rest := by
      rcases hnext with rfl | ⟨d, tail, rfl⟩
      · exact parted_nil chars
      · cases d <;> exact parted_of_head (.inl rfl) chars _
    have hpos : 0 < byteLength chars :=
      Nat.lt_of_lt_of_le (List.length_pos_of_ne_nil hne) (length_le_byteLength chars)
    exact names_eq_iff_cons (.text chars) hparted hpos (namesFrom_eq_iff_of_none rfl) (ih _)
  | @terminated d s body rest segs hbody _ ih =>
    have hsource : d.opening ++ s = (d.segment body true).chars ++ rest := by
      rw [chars_segment, if_pos rfl, hbody.1.1]
      simp
    rw [hsource]
    refine names_eq_iff_cons _ (parted_segment d body rest) (byteLength_segment_pos d body true) ?_ (ih _)
    cases d with
    | comment => exact namesFrom_eq_iff_of_none rfl
    | output => exact namesFrom_eq_iff_of_none rfl
    | statement =>
      have hread : statementBody? none s = some (body, rest) := hbody.terminator?_eq
      have htext : s = body ++ '%' :: '\x7d' :: rest := by
        rw [hbody.1.1, List.append_assoc]
        rfl
      rw [htext] at hread
      exact namesFrom_eq_iff_statement hread
  | @unterminated d s hnone =>
    have hsource : d.opening ++ s = (d.segment s false).chars ++ [] := by
      rw [chars_segment]
      simp
    rw [hsource]
    refine names_eq_iff_cons _ (parted_nil _) (byteLength_segment_pos d s false) ?_
      ⟨fun _ => List.forall_mem_nil _, fun _ => rfl⟩
    cases d <;> exact namesFrom_eq_iff_of_none rfl

/-- A block with content is seen alike. -/
example : ∀ seg ∈ cut "\x7b% block a %\x7dx\x7b% endblock %\x7d".toList, Alike seg := by
  refine (namesFrom_eq_iff (cuts_cut _) 0).1 ?_
  decide +kernel

/-- The blocks recorded of a component's template are the tags that are found line by line, and the
named blocks of its tree are those that its statements name. The two agree exactly if each segment
shows the same in both ways; then the blocks recorded are those of the tree, each name by the first. -/
theorem blocks_alike (src : Source) :
    blocksOf src = distinctPlaces ((namesFrom 0 src).map (placeOf src)) ∧
      treeBlocks src = (treeNames src).map (placeOf src) ∧
      (namesFrom 0 src = treeNames src ↔ ∀ seg ∈ cut src, Alike seg) ∧
      ((∀ seg ∈ cut src, Alike seg) → blocksOf src = distinctPlaces (treeBlocks src)) := by
  have hiff : namesFrom 0 src = treeNames src ↔ ∀ seg ∈ cut src, Alike seg := by
    rw [treeNames, filterMap_descendants]
    exact namesFrom_eq_iff (cuts_cut src) 0
  refine ⟨blocksOf_eq src, treeBlocks_eq src, hiff, fun halike => ?_⟩
  rw [blocksOf_eq, hiff.2 halike, treeBlocks_eq]

/-- A block whose tag trims the blanks around it. -/
def trimmedTag : Source := "\x7b%- block a -%\x7dx\x7b%- endblock -%\x7d".toList

/-- Such a block is in the tree, but it is not recorded. -/
theorem blocksOf_trimmedTag :
    blocksOf trimmedTag = [] ∧ distinctPlaces (treeBlocks trimmedTag) = [⟨"a", 1⟩] ∧
      blocksOf trimmedTag ≠ distinctPlaces (treeBlocks trimmedTag) := by
  have hrecorded : blocksOf trimmedTag = [] := by decide +kernel
  have htree : distinctPlaces (treeBlocks trimmedTag) = [⟨"a", 1⟩] := by decide +kernel
  refine ⟨hrecorded, htree, fun hsame => ?_⟩
  exact List.cons_ne_nil _ _ (htree.symm.trans (hsame.symm.trans hrecorded))

/-- A tag in a comment is recorded, and no block of the tree. -/
example : blocksOf "\x7b# \x7b% block a %\x7d #\x7d".toList = [⟨"a", 1⟩] ∧
    treeBlocks "\x7b# \x7b% block a %\x7d #\x7d".toList = [] := by decide +kernel

end Run
end ProjectIndex.Components
