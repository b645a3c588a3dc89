import Mathlib.Data.List.Basic
import ProjectIndex.Text.Blank
import ProjectIndex.Text.Scan

/-!
Searches that find what was put in a text: a part at its start or at its end, a part anywhere, the
first of a character, a run of characters of a class, and the parts between separators.
-/
namespace ProjectIndex.Text

def IsRun (class_ : Char → Bool) (s : List Char) : Prop := s ≠ [] ∧ ∀ c ∈ s, class_ c = true

instance (class_ : Char → Bool) (s : List Char) : Decidable (IsRun class_ s) :=
  decidable_of_iff (s ≠ [] ∧ s.all class_ = true) (and_congr_right' List.all_eq_true)

section Searches

variable {class_ : Char → Bool} {s : List Char} {c : Char}

theorem dropStart?_append (start rest : List Char) : dropStart? start (start ++ rest) = some rest := by
  rw [dropStart?, if_pos (List.isPrefixOf_iff_prefix.2 (List.prefix_append ..)), List.drop_left]

theorem eq_append_of_dropStart? {start rest : List Char} (h : dropStart? start s = some rest) :
    s = start ++ rest := by
  rw [dropStart?] at h
  split at h
  · next hprefix =>
    obtain ⟨tail, rfl⟩ := List.isPrefixOf_iff_prefix.1 hprefix
    rw [List.drop_left] at h
    rw [Option.some.inj h]
  · cases h

theorem eq_append_of_run? {run rest : List Char} (h : run? class_ s = some (run, rest)) :
    s = run ++ rest ∧ IsRun class_ run := by
  rw [run?] at h
  split at h
  · cases h
  · next hne =>
    obtain ⟨rfl, rfl⟩ := Prod.mk.inj (Option.some.inj h)
    refine ⟨List.takeWhile_append_dropWhile.symm, ?_, List.all_eq_true.1 List.all_takeWhile⟩
    exact fun hnil => hne (List.isEmpty_iff.2 hnil)

theorem dropEnd?_append (s stop : List Char) : dropEnd? stop (s ++ stop) = some s := by
  rw [dropEnd?, List.reverse_append, dropStart?_append, Option.map_some, List.reverse_reverse]

theorem contains_iff {needle : List Char} : contains s needle = true ↔ needle <:+: s := by
  induction s with
  | nil =>
    rw [contains, splitAtFirst, List.infix_nil]
    cases needle with
    | nil => exact ⟨fun _ => rfl, fun _ => rfl⟩
    | cons c needle => exact ⟨nofun, nofun⟩
  | cons c s ih =>
    rw [contains, splitAtFirst, List.infix_cons_iff, ← List.isPrefixOf_iff_prefix, ← ih]
    split
    · next hprefix => exact ⟨fun _ => .inl hprefix, fun _ => rfl⟩
    · next hprefix =>
      rw [Option.isSome_map]
      exact ⟨.inr, fun hor => hor.resolve_left hprefix⟩

theorem contains_append (needle : List Char) (u rest : List Char) :
    contains (u ++ (needle ++ rest)) needle = true :=
  contains_iff.2 ⟨u, rest, List.append_assoc ..⟩

/-- A text that was put in is found there if it does not begin earlier. -/
theorem splitAtFirst_append {needle rest : List Char} (hneedle : needle ≠ [])
    (h : ∀ w, w ≠ [] → w <:+ s → ¬ needle <+: w ++ (needle ++ rest)) :
    splitAtFirst needle (s ++ (needle ++ rest)) = some (s, rest) := by
  induction s with
  | nil =>
    obtain ⟨c, tail, rfl⟩ := List.exists_cons_of_ne_nil hneedle
    have hprefix : (c :: tail).isPrefixOf (c :: (tail ++ rest)) = true :=
      List.isPrefixOf_iff_prefix.2 (List.prefix_append (c :: tail) rest)
    rw [List.nil_append, List.cons_append, splitAtFirst, if_pos hprefix, ← List.cons_append,
      List.drop_left]
  | cons c s ih =>
    have hhere : ¬ needle.isPrefixOf (c :: (s ++ (needle ++ rest))) = true := fun hprefix =>
      h (c :: s) (List.cons_ne_nil c s) List.suffix_rfl (List.isPrefixOf_iff_prefix.1 hprefix)
    have hlater := ih fun w hne hsuffix => h w hne (hsuffix.trans (List.suffix_cons c s))
    rw [List.cons_append, splitAtFirst, if_neg hhere, hlater]
    rfl

theorem splitAtFirst_singleton (h : c ∉ s) (rest : List Char) :
    splitAtFirst [c] (s ++ c :: rest) = some (s, rest) := by
  refine splitAtFirst_append (List.cons_ne_nil c []) fun w hne hsuffix hstarts => ?_
  obtain ⟨d, w, rfl⟩ := List.exists_cons_of_ne_nil hne
  obtain ⟨rfl, -⟩ := List.cons_prefix_cons.1 hstarts
  exact h (hsuffix.subset (List.mem_cons_self ..))

theorem takeWhile_run (h : ∀ d ∈ s, class_ d = true) (rest : List Char)
    (hrest : ∀ d ∈ rest.head?, class_ d = false) :
    (s ++ rest).takeWhile class_ = s ∧ (s ++ rest).dropWhile class_ = rest := by
  rw [List.takeWhile_append_of_pos h, List.dropWhile_append_of_pos h]
  cases rest with
  | nil => exact ⟨List.append_nil s, rfl⟩
  | cons c rest =>
    have hstop : ¬ class_ c = true := by rw [hrest c rfl]; exact Bool.false_ne_true
    rw [List.takeWhile_cons_of_neg hstop, List.dropWhile_cons_of_neg hstop, List.append_nil]
    exact ⟨rfl, rfl⟩

theorem forall_mem_head?_cons {rest : List Char} (h : class_ c = false) :
    ∀ d ∈ (c :: rest).head?, class_ d = false := fun _ hd => Option.some.inj hd ▸ h

theorem IsRun.run?_append (h : IsRun class_ s) {rest : List Char}
    (hrest : ∀ d ∈ rest.head?, class_ d = false) : run? class_ (s ++ rest) = some (s, rest) := by
  obtain ⟨htake, hdrop⟩ := takeWhile_run h.2 rest hrest
  have hsome : s.isEmpty = false := by simpa using h.1
  rw [run?, htake, hdrop, hsome]
  rfl

theorem IsRun.run?_eq (h : IsRun class_ s) (hc : class_ c = false) (rest : List Char) :
    run? class_ (s ++ c :: rest) = some (s, c :: rest) := h.run?_append (forall_mem_head?_cons hc)

theorem IsRun.trimStart (h : IsRun class_ s) (hclass : ∀ c, class_ c = true → isBlank c = false)
    (rest : List Char) : (' ' :: (s ++ rest)).dropWhile isBlank = s ++ rest := by
  obtain ⟨hne, hall⟩ := h
  cases s with
  | nil => exact absurd rfl hne
  | cons c s =>
    have hc : isBlank c = false := hclass c (hall c (List.mem_cons_self ..))
    rw [List.dropWhile_cons_of_pos rfl, List.cons_append,
      List.dropWhile_cons_of_neg (Bool.not_eq_true _ ▸ hc)]

end Searches

section Parts

theorem splitOn_ne_nil (sep : Char) (s : List Char) : splitOn sep s ≠ [] := by
  cases s with
  | nil => simp [splitOn]
  | cons c s =>
    rw [splitOn]
    split
    · simp
    · split <;> simp

theorem splitOn_sep (sep : Char) (s : List Char) :
    splitOn sep (sep :: s) = [] :: splitOn sep s := by
  rw [splitOn]
  split
  · next hnil => exact absurd hnil (splitOn_ne_nil sep s)
  · next hparts => rw [hparts, if_pos (beq_self_eq_true sep)]

theorem splitOn_cons {sep c : Char} (hc : c ≠ sep) {s part : List Char} {parts : List (List Char)}
    (hs : splitOn sep s = part :: parts) : splitOn sep (c :: s) = (c :: part) :: parts := by
  rw [splitOn, hs]
  exact if_neg (by simpa using hc)

theorem splitOn_of_notMem {sep : Char} {s : List Char} (hs : sep ∉ s) : splitOn sep s = [s] := by
  induction s with
  | nil => rfl
  | cons c s ih =>
    obtain ⟨hc, hrest⟩ : sep ≠ c ∧ sep ∉ s := by simpa using hs
    exact splitOn_cons (Ne.symm hc) (ih hrest)

theorem splitOn_append_sep (sep : Char) (s rest : List Char) :
    splitOn sep (s ++ sep :: rest) = splitOn sep s ++ splitOn sep rest := by
  induction s with
  | nil => exact splitOn_sep sep rest
  | cons c s ih =>
    by_cases hc : c = sep
    · subst hc
      rw [List.cons_append, splitOn_sep, splitOn_sep, ih, List.cons_append]
    · obtain ⟨part, parts, hs⟩ := List.exists_cons_of_ne_nil (splitOn_ne_nil sep s)
      rw [hs, List.cons_append] at ih
      rw [List.cons_append, splitOn_cons hc ih, splitOn_cons hc hs, List.cons_append]

theorem splitOn_append {sep : Char} {s : List Char} (hs : sep ∉ s) (rest : List Char) :
    splitOn sep (s ++ sep :: rest) = s :: splitOn sep rest := by
  rw [splitOn_append_sep, splitOn_of_notMem hs, List.singleton_append]

theorem notMem_of_mem_splitOn {sep : Char} {s part : List Char} (h : part ∈ splitOn sep s) :
    sep ∉ part := by
  induction s generalizing part with
  | nil => simp_all [splitOn]
  | cons c s ih =>
    by_cases hc : c = sep
    · subst hc
      rw [splitOn_sep] at h
      rcases List.mem_cons.1 h with rfl | hpart
      · exact List.not_mem_nil
      · exact ih hpart
    · obtain ⟨first, parts, hs⟩ := List.exists_cons_of_ne_nil (splitOn_ne_nil sep s)
      rw [splitOn_cons hc hs] at h
      rw [hs] at ih
      rcases List.mem_cons.1 h with rfl | hpart
      · simpa [Ne.symm hc] using ih (List.mem_cons_self ..)
      · exact ih (List.mem_cons_of_mem _ hpart)

theorem eq_append_of_dropEnd? {s stop body : List Char} (h : dropEnd? stop s = some body) :
    s = body ++ stop := by
  obtain ⟨reversed, hdrop, rfl⟩ := Option.map_eq_some_iff.1 h
  have hreverse := congrArg List.reverse (eq_append_of_dropStart? hdrop)
  rwa [List.reverse_reverse, List.reverse_append, List.reverse_reverse] at hreverse

theorem lines_append {s : List Char} (hs : '\n' ∉ s) (rest : List Char) :
    lines (s ++ '\n' :: rest) = (dropEnd? ['\r'] s).getD s :: lines rest := by
  obtain ⟨part, parts, hparts⟩ := List.exists_cons_of_ne_nil (splitOn_ne_nil '\n' rest)
  simp only [lines, splitOn_append hs, hparts, List.dropLast_cons_cons, List.map_cons,
    List.getLast?_cons_cons]
  split
  · rfl
  · rfl
  · rfl

theorem lines_of_notMem {s : List Char} (hs : '\n' ∉ s) : lines s = if s = [] then [] else [s] := by
  rw [lines, splitOn_of_notMem hs]
  cases s <;> rfl

end Parts

section Scans

variable {α : Type} {matchAt : List Char → Option (α × List Char)} {s rest : List Char} {a : α}
  {c : Char}

def Consumes (matchAt : List Char → Option (α × List Char)) : Prop :=
  ∀ (s : List Char) (a : α) (rest : List Char), matchAt s = some (a, rest) → rest.length < s.length

/-- A scan has steps enough for a text if there is one for each character. -/
theorem Consumes.scanFrom_eq (h : Consumes matchAt) {fuel : Nat} (hfuel : s.length ≤ fuel) :
    scanFrom matchAt fuel s = scanAll matchAt s := by
  induction fuel using Nat.strongRecOn generalizing s with
  | _ fuel ih =>
    cases s with
    | nil => cases fuel <;> rfl
    | cons c s =>
      obtain ⟨fuel, rfl⟩ := Nat.exists_eq_add_one_of_ne_zero (Nat.ne_zero_of_lt hfuel)
      have hle : s.length ≤ fuel := Nat.le_of_succ_le_succ hfuel
      rw [scanAll, List.length_cons, scanFrom, scanFrom]
      -- a match may take off any number of characters, so what is left is compared with its own length
      cases hread : matchAt (c :: s) with
      | none =>
        exact ih fuel (Nat.lt_succ_self fuel) hle
      | some found =>
        have hshorter : found.2.length ≤ s.length := Nat.le_of_lt_succ (h _ _ _ hread)
        have hhere := ih fuel (Nat.lt_succ_self fuel) (Nat.le_trans hshorter hle)
        have hthere := ih s.length (Nat.lt_succ_of_le hle) hshorter
        exact congrArg (found.1 :: ·) (hhere.trans hthere.symm)

theorem scanAll_of_none (h : matchAt (c :: s) = none) :
    scanAll matchAt (c :: s) = scanAll matchAt s := by
  rw [scanAll, List.length_cons, scanFrom, h]
  rfl

theorem Consumes.scanAll_of_some (h : Consumes matchAt) (hread : matchAt s = some (a, rest)) :
    scanAll matchAt s = a :: scanAll matchAt rest := by
  have hshorter := h s a rest hread
  cases s with
  | nil => exact absurd hshorter (Nat.not_lt_zero _)
  | cons c s =>
    rw [scanAll, List.length_cons, scanFrom, hread]
    exact congrArg (a :: ·) (h.scanFrom_eq (Nat.le_of_lt_succ hshorter))

/-- A scan passes over a text in which no match starts. -/
theorem scanAll_append (h : ∀ u, u ≠ [] → u <:+ s → matchAt (u ++ rest) = none) :
    scanAll matchAt (s ++ rest) = scanAll matchAt rest := by
  induction s with
  | nil => rfl
  | cons c s ih =>
    have hhere := h (c :: s) (List.cons_ne_nil c s) List.suffix_rfl
    have hlater := ih fun u hu hsuffix => h u hu (hsuffix.trans (List.suffix_cons c s))
    exact (scanAll_of_none hhere).trans hlater

end Scans

end ProjectIndex.Text
