import Mathlib.Data.List.Chain
import ProjectIndex.Proofs.Domain.Templates.Spelling

/-!
A template is kept under its path below the views directory, and a reference to it is read as the
same path. The views directory is searched for as a text, and such a text lies in a path exactly
where a segment ends in its first part and the next one begins with its second. So the key is the
path below exactly if the directory above has no two such segments, whether or not one of them is
itself a `Resources` or a `views`.
-/
namespace ProjectIndex

namespace Text

section Segments

variable {sep : Char} {u v s : List Char}

theorem joinWith_cons (join part : List Char) {parts : List (List Char)} (h : parts ≠ []) :
    joinWith join (part :: parts) = part ++ join ++ joinWith join parts := by
  cases parts with
  | nil => exact absurd rfl h
  | cons next parts => rfl

theorem joinWith_splitOn (sep : Char) (s : List Char) : joinWith [sep] (splitOn sep s) = s := by
  induction s with
  | nil => rfl
  | cons c s ih =>
    have hne := splitOn_ne_nil sep s
    by_cases hc : c = sep
    · subst hc
      rw [splitOn_sep, joinWith_cons _ _ hne, ih]
      rfl
    · obtain ⟨part, parts, hs⟩ := List.exists_cons_of_ne_nil hne
      rw [splitOn_cons hc hs]
      rw [hs] at ih
      -- the first part grows by a character, and whatever is joined to it stays
      cases parts with
      | nil => exact congrArg (c :: ·) ih
      | cons next parts =>
        rw [joinWith_cons _ _ (List.cons_ne_nil next parts)] at ih ⊢
        exact congrArg (c :: ·) ih

theorem exists_splitOn_append_last (hu : sep ∉ u) (s : List Char) :
    ∃ before last, splitOn sep (s ++ u) = before ++ [last] ∧ u <:+ last := by
  induction s with
  | nil => exact ⟨[], u, splitOn_of_notMem hu, List.suffix_rfl⟩
  | cons c s ih =>
    obtain ⟨before, last, hparts, hsuffix⟩ := ih
    by_cases hc : c = sep
    · subst hc
      refine ⟨[] :: before, last, ?_, hsuffix⟩
      rw [List.cons_append, splitOn_sep, hparts, List.cons_append]
    · cases before with
      | nil => exact ⟨[], c :: last, splitOn_cons hc hparts, hsuffix.trans (List.suffix_cons c last)⟩
      | cons first before => exact ⟨(c :: first) :: before, last, splitOn_cons hc hparts, hsuffix⟩

theorem exists_splitOn_append_first (hv : sep ∉ v) (s : List Char) :
    ∃ first after, splitOn sep (v ++ s) = first :: after ∧ v <+: first := by
  induction v with
  | nil =>
    obtain ⟨first, after, hs⟩ := List.exists_cons_of_ne_nil (splitOn_ne_nil sep s)
    exact ⟨first, after, hs, List.nil_prefix⟩
  | cons c v ih =>
    obtain ⟨hc, hv⟩ : sep ≠ c ∧ sep ∉ v := by simpa using hv
    obtain ⟨first, after, hs, hprefix⟩ := ih hv
    exact ⟨c :: first, after, splitOn_cons (Ne.symm hc) hs, List.cons_prefix_cons.2 ⟨rfl, hprefix⟩⟩

theorem infix_joinWith (join first second : List Char) (before after : List (List Char)) :
    first ++ join ++ second <:+: joinWith join (before ++ first :: second :: after) := by
  induction before with
  | nil =>
    cases after with
    | nil => exact List.infix_rfl
    | cons next after =>
      exact ⟨[], join ++ joinWith join (next :: after), by simp [joinWith]⟩
  | cons part before ih =>
    rw [List.cons_append, joinWith_cons _ _ (by simp)]
    exact ih.trans (List.suffix_append ..).isInfix

/-- A text across a separator lies in a text exactly if it lies across two consecutive parts. -/
theorem infix_iff_exists_parts (hu : sep ∉ u) (hv : sep ∉ v) :
    u ++ sep :: v <:+: s ↔ ∃ before first second after,
      splitOn sep s = before ++ first :: second :: after ∧ u <:+ first ∧ v <+: second := by
  constructor
  · rintro ⟨x, y, rfl⟩
    obtain ⟨before, first, hfront, hfirst⟩ := exists_splitOn_append_last hu x
    obtain ⟨second, after, hback, hsecond⟩ := exists_splitOn_append_first hv y
    refine ⟨before, first, second, after, ?_, hfirst, hsecond⟩
    have hcut : x ++ (u ++ sep :: v) ++ y = (x ++ u) ++ sep :: (v ++ y) := by simp
    rw [hcut, splitOn_append_sep, hfront, hback, List.append_assoc, List.singleton_append]
  · rintro ⟨before, first, second, after, hparts, ⟨x, rfl⟩, ⟨y, rfl⟩⟩
    have hinside := infix_joinWith [sep] (x ++ u) (v ++ y) before after
    rw [← hparts, joinWith_splitOn] at hinside
    exact List.IsInfix.trans ⟨x, y, by simp⟩ hinside

theorem not_infix_iff_isChain (hu : sep ∉ u) (hv : sep ∉ v) :
    ¬ u ++ sep :: v <:+: s ↔
      (splitOn sep s).IsChain fun first second => ¬ (u <:+ first ∧ v <+: second) := by
  rw [infix_iff_exists_parts hu hv, List.isChain_iff_forall_rel_of_append_cons_cons]
  constructor
  · intro hnone first second before after hparts hboth
    exact hnone ⟨before, first, second, after, hparts, hboth⟩
  · rintro hchain ⟨before, first, second, after, hparts, hboth⟩
    exact hchain hparts hboth

end Segments

section Occurrences

variable {sep : Char} {needle u v s rest before behind : List Char}

theorem splitAtFirst_append_of_some (h : splitAtFirst needle s = some (before, behind))
    (rest : List Char) : splitAtFirst needle (s ++ rest) = some (before, behind ++ rest) := by
  induction s generalizing before with
  | nil =>
    rw [splitAtFirst] at h
    split at h
    · next hempty =>
      obtain rfl := List.isEmpty_iff.1 hempty
      obtain ⟨rfl, rfl⟩ := Prod.mk.inj (Option.some.inj h)
      cases rest <;> rfl
    · cases h
  | cons c s ih =>
    rw [splitAtFirst] at h
    rw [List.cons_append, splitAtFirst]
    split at h
    · next hprefix =>
      have hprefix := List.isPrefixOf_iff_prefix.1 hprefix
      have hlonger : needle <+: c :: (s ++ rest) := hprefix.trans (List.prefix_append (c :: s) rest)
      obtain ⟨rfl, rfl⟩ := Prod.mk.inj (Option.some.inj h)
      rw [if_pos (List.isPrefixOf_iff_prefix.2 hlonger), ← List.cons_append,
        List.drop_append_of_le_length hprefix.length_le]
    · next hprefix =>
      obtain ⟨found, hfound, hpair⟩ := Option.map_eq_some_iff.1 h
      obtain ⟨rfl, rfl⟩ := Prod.mk.inj hpair
      have hlength : needle.length ≤ s.length := by
        have hinside : contains s needle = true := by rw [contains, hfound]; rfl
        exact (contains_iff.1 hinside).length_le
      -- The needle lies in `s`, so it cannot begin here by reaching into `rest`.
      have hnot : ¬ needle.isPrefixOf (c :: (s ++ rest)) = true := fun hlonger =>
        hprefix (List.isPrefixOf_iff_prefix.2 (List.prefix_of_prefix_length_le
          (List.isPrefixOf_iff_prefix.1 hlonger) (List.prefix_append (c :: s) rest)
          (hlength.trans (Nat.le_succ _))))
      rw [if_neg hnot, ih hfound]
      rfl

theorem prefix_of_prefix_append_sep (hv : sep ∉ v) (h : v <+: s ++ sep :: rest) : v <+: s := by
  rcases List.prefix_or_prefix_of_prefix h (List.prefix_append s (sep :: rest)) with hshort | hlong
  · exact hshort
  · obtain ⟨tail, rfl⟩ := hlong
    cases tail with
    | nil => exact ⟨[], by simp⟩
    | cons c tail =>
      obtain ⟨rfl, _⟩ := List.cons_prefix_cons.1 ((List.prefix_append_right_inj s).1 h)
      exact absurd (List.mem_append_right s (List.mem_cons_self ..)) hv

theorem prefix_append_sep (hu : sep ∉ u) (hv : sep ∉ v)
    (h : u ++ sep :: v <+: s ++ sep :: rest) : u ++ sep :: v <+: s ∨ s = u ∧ v <+: rest := by
  induction s generalizing u with
  | nil =>
    cases u with
    | nil => exact .inr ⟨rfl, (List.cons_prefix_cons.1 h).2⟩
    | cons c u =>
      obtain ⟨rfl, _⟩ := List.cons_prefix_cons.1 h
      exact absurd (List.mem_cons_self ..) hu
  | cons d s ih =>
    cases u with
    | nil =>
      obtain ⟨rfl, hprefix⟩ := List.cons_prefix_cons.1 h
      exact .inl (List.cons_prefix_cons.2 ⟨rfl, prefix_of_prefix_append_sep hv hprefix⟩)
    | cons c u =>
      obtain ⟨rfl, hprefix⟩ := List.cons_prefix_cons.1 h
      rcases ih (fun hmem => hu (List.mem_cons_of_mem c hmem)) hprefix with hfront | ⟨rfl, hback⟩
      · exact .inl (List.cons_prefix_cons.2 ⟨rfl, hfront⟩)
      · exact .inr ⟨rfl, hback⟩

end Occurrences

end Text

namespace Templates

open ProjectIndex.Text

/-- The path of a template in the views directory of a directory. -/
def templatePath (dir relative : List Char) : List Char :=
  dir ++ ("/Resources/views/".toList ++ relative)

section Keys

variable {dir relative bundle : List Char}

theorem templatePath_eq (dir relative : List Char) :
    templatePath dir relative = (dir ++ ['/']) ++ (viewsDir ++ '/' :: relative) := by
  have hspelled : "/Resources/views/".toList = '/' :: (viewsDir ++ ['/']) := by decide
  rw [templatePath, hspelled]
  simp

theorem viewsDir_eq : viewsDir = "Resources".toList ++ '/' :: "views".toList := by decide

theorem not_viewsDir_infix_iff : ¬ viewsDir <:+: dir ↔
    (splitOn '/' dir).IsChain fun first second =>
      ¬ ("Resources".toList <:+ first ∧ "views".toList <+: second) := by
  rw [viewsDir_eq]
  exact not_infix_iff_isChain (by decide) (by decide)

theorem dropSlashes_of_head? (h : relative.head? ≠ some '/') : dropSlashes relative = relative := by
  cases relative with
  | nil => rfl
  | cons c relative =>
    have hc : ¬ (c == '/') = true := fun heq => h (congrArg some (beq_iff_eq.1 heq))
    exact List.dropWhile_cons_of_neg hc

theorem length_lt_dropSlashes {c : Char} (hc : c ≠ '/') (s rest : List Char) :
    rest.length < (dropSlashes (s ++ c :: rest)).length := by
  have hstop : (c :: rest).dropWhile (· == '/') = c :: rest :=
    List.dropWhile_cons_of_neg fun heq => hc (beq_iff_eq.1 heq)
  rw [dropSlashes, List.dropWhile_append, hstop]
  split
  · exact Nat.lt_succ_self _
  · rw [List.length_append, List.length_cons]
    omega

/-- The views directory cannot begin above itself and reach into itself. -/
theorem splitAtFirst_templatePath (h : ¬ viewsDir <:+: dir) :
    splitAtFirst viewsDir (templatePath dir relative) = some (dir ++ ['/'], '/' :: relative) := by
  rw [templatePath_eq]
  refine splitAtFirst_append (by decide) fun w hne hsuffix hprefix => ?_
  obtain ⟨front, rfl⟩ : ∃ front, w = front ++ ['/'] := by
    rcases List.suffix_concat_iff.1 hsuffix with rfl | ⟨front, rfl, -⟩
    · exact absurd rfl hne
    · exact ⟨front, rfl⟩
  have hfront : front <:+ dir := by
    obtain ⟨above, habove⟩ := hsuffix
    rw [← List.append_assoc] at habove
    exact ⟨above, List.append_cancel_right habove⟩
  rw [List.append_assoc, List.singleton_append] at hprefix
  -- behind a slash the directory would have to begin with `views`
  have hcases := prefix_append_sep (u := "Resources".toList) (v := "views".toList)
    (by decide) (by decide) (viewsDir_eq ▸ hprefix)
  rcases hcases with hinside | ⟨-, hviews⟩
  · exact h ((viewsDir_eq ▸ hinside).isInfix.trans hfront.isInfix)
  · have hhead := (List.cons_prefix_cons (a := 'v') (b := 'R')).1 hviews
    exact absurd hhead.1 (by decide)

theorem relativePath_templatePath (hrelative : relative.head? ≠ some '/')
    (h : ¬ viewsDir <:+: dir) : relativePath (templatePath dir relative) = relative := by
  have hslash : dropSlashes ('/' :: relative) = dropSlashes relative := rfl
  rw [relativePath, splitAtFirst_templatePath h]
  exact hslash.trans (dropSlashes_of_head? hrelative)

theorem length_relativePath_templatePath (h : viewsDir <:+: dir) :
    relative.length < (relativePath (templatePath dir relative)).length := by
  obtain ⟨⟨before, behind⟩, hcut⟩ := Option.isSome_iff_exists.1 (contains_iff.2 h)
  have hspelled : "/Resources/views/".toList = '/' :: 'R' :: "esources/views/".toList := by decide
  have hpath : behind ++ ("/Resources/views/".toList ++ relative) =
      (behind ++ ['/']) ++ 'R' :: ("esources/views/".toList ++ relative) := by
    rw [hspelled]
    simp
  have hlonger := length_lt_dropSlashes (c := 'R') (by decide) (behind ++ ['/'])
    ("esources/views/".toList ++ relative)
  rw [relativePath, templatePath, splitAtFirst_append_of_some hcut]
  change relative.length < (dropSlashes _).length
  rw [hpath]
  rw [List.length_append] at hlonger
  omega

theorem normalizeReference_of_head? (hslash : relative.head? ≠ some '/')
    (hat : relative.head? ≠ some '@') : normalizeReference relative = relative := by
  rw [normalizeReference.eq_def]
  split
  · exact absurd rfl hat
  · exact dropSlashes_of_head? hslash

/-- A template is kept under the path that references to it mean, unless a segment above its views
directory ends in `Resources` and the next one begins with `views`; then it never is. -/
theorem key_meets_reference_iff (hrelative : relative.head? ≠ some '/') (hbundle : '/' ∉ bundle) :
    (relativePath (templatePath dir relative) = relative ↔
      (splitOn '/' dir).IsChain fun first second =>
        ¬ ("Resources".toList <:+ first ∧ "views".toList <+: second)) ∧
    normalizeReference (referenceTo bundle relative) = relative ∧
    (relative.head? ≠ some '@' → normalizeReference relative = relative) := by
  refine ⟨?_, normalizeReference_referenceTo hbundle relative,
    normalizeReference_of_head? hrelative⟩
  rw [← not_viewsDir_infix_iff]
  constructor
  · intro hkey hinside
    have hlonger : relative.length < (relativePath (templatePath dir relative)).length :=
      length_relativePath_templatePath hinside
    rw [hkey] at hlonger
    exact Nat.lt_irrefl _ hlonger
  · exact relativePath_templatePath hrelative

/-- A directory with both words, each in the place of the other. -/
theorem key_meets_reference_iff_swapped :
    let dir := "plugins/views/Resources".toList
    let relative := "storefront/base.html.twig".toList
    relative.head? ≠ some '/' ∧ '/' ∉ "Storefront".toList ∧
      ((splitOn '/' dir).IsChain fun first second =>
        ¬ ("Resources".toList <:+ first ∧ "views".toList <+: second)) ∧
      relativePath (templatePath dir relative) = relative ∧
      normalizeReference (referenceTo "Storefront".toList relative) = relative ∧
      normalizeReference relative = relative := by
  intro dir relative
  have hrelative : relative.head? ≠ some '/' := by decide
  have hbundle : '/' ∉ "Storefront".toList := by decide
  have hchain : (splitOn '/' dir).IsChain fun first second =>
      ¬ ("Resources".toList <:+ first ∧ "views".toList <+: second) := by decide
  obtain ⟨hkey, hreference, hplain⟩ := @key_meets_reference_iff dir relative _ hrelative hbundle
  exact ⟨hrelative, hbundle, hchain, hkey.2 hchain, hreference, hplain (by decide)⟩

/-- No two segments of this directory are `Resources` and `views`, but its templates are kept under
other paths than references to them mean. -/
theorem views_prefix_shifts_key :
    let dir := "Resources/views-old".toList
    let relative := "a.html.twig".toList
    ((splitOn '/' dir).IsChain fun first second =>
      ¬ (first = "Resources".toList ∧ second = "views".toList)) ∧
      relative ≠ [] ∧ relative.head? ≠ some '/' ∧
      relativePath (templatePath dir relative) = "-old/Resources/views/a.html.twig".toList ∧
      relativePath (templatePath dir relative) ≠ relative ∧
      normalizeReference (referenceTo "A".toList relative) = relative := by
  decide

end Keys

end Templates
end ProjectIndex
