import Mathlib.Algebra.Group.Nat.Even
import ProjectIndex.Proofs.Grammar.Twig.Safety

/-!
The end of a statement and the ends of its strings. Both are found by readers of quotes that know
nothing of each other. Where the first of them ends a statement no quote is open, so the other comes
to the closing quote of every string: the first one with an even number of backslashes in front.
Between the tokens there are only blanks and hyphens.
-/
namespace ProjectIndex.Twig

open ProjectIndex.Text

/-- Whether a character behind a text is not escaped: backslashes in front of it escape each other. -/
def Unescaped (s : List Char) : Prop := Even (s.reverse.takeWhile (· == '\\')).length

instance : DecidablePred Unescaped := fun s =>
  inferInstanceAs (Decidable (Even (s.reverse.takeWhile (· == '\\')).length))

def Closes (quote : Char) (s : List Char) : Prop :=
  ∃ inner, s = inner ++ [quote] ∧ Unescaped inner ∧
    ∀ u v, inner = u ++ quote :: v → ¬ Unescaped u

/-- A quote and what stands behind it, up to the next one of its kind that is not escaped. -/
def IsString (s : List Char) : Prop :=
  ∃ quote rest, isQuote quote = true ∧ s = quote :: rest ∧ Closes quote rest

section Escapes

variable {q c d : Char} {u s : List Char}

theorem unescaped_append (hu : Unescaped u) : Unescaped (u ++ s) ↔ Unescaped s := by
  unfold Unescaped at hu ⊢
  rw [List.reverse_append, List.takeWhile_append]
  split
  · next hall => rw [List.length_append, ← hall, Nat.even_add, iff_true_right hu]
  · exact Iff.rfl

theorem unescaped_singleton (hc : c ≠ '\\') : Unescaped [c] := by
  simp [Unescaped, hc]

theorem unescaped_escape (d : Char) : Unescaped ['\\', d] := by
  by_cases hd : d = '\\'
  · subst hd
    decide
  · simp [Unescaped, hd]

theorem unescaped_cons (hc : c ≠ '\\') : Unescaped (c :: s) ↔ Unescaped s :=
  unescaped_append (unescaped_singleton hc)

theorem unescaped_cons_cons (d : Char) (s : List Char) :
    Unescaped ('\\' :: d :: s) ↔ Unescaped s := unescaped_append (unescaped_escape d)

theorem closes_singleton (q : Char) : Closes q [q] :=
  ⟨[], rfl, by decide, fun u v h => by cases u <;> cases h⟩

theorem Closes.cons (h : Closes q s) (hslash : c ≠ '\\') (hquote : c ≠ q) : Closes q (c :: s) := by
  obtain ⟨inner, rfl, hinner, hfirst⟩ := h
  refine ⟨c :: inner, rfl, (unescaped_cons hslash).2 hinner, fun u v hsplit => ?_⟩
  cases u with
  | nil => exact absurd (List.cons.inj hsplit).1 hquote
  | cons c' u =>
    obtain ⟨rfl, hrest⟩ := List.cons.inj hsplit
    exact mt (unescaped_cons hslash).1 (hfirst u v hrest)

theorem Closes.escape (h : Closes q s) (hq : q ≠ '\\') (d : Char) :
    Closes q ('\\' :: d :: s) := by
  obtain ⟨inner, rfl, hinner, hfirst⟩ := h
  refine ⟨'\\' :: d :: inner, rfl, (unescaped_cons_cons d inner).2 hinner, fun u v hsplit => ?_⟩
  -- the quote is neither the backslash nor, unescaped, the character behind it
  match u with
  | [] => exact absurd (List.cons.inj hsplit).1.symm hq
  | [c] =>
    obtain ⟨rfl, -⟩ := List.cons.inj hsplit
    decide
  | c :: c' :: u =>
    obtain ⟨rfl, htail⟩ := List.cons.inj hsplit
    obtain ⟨rfl, hrest⟩ := List.cons.inj htail
    exact mt (unescaped_cons_cons _ u).1 (hfirst u v hrest)

end Escapes

section Quotes

variable {q c : Char} {u s : List Char} {pos : Nat} {t : Token}

theorem Quoting.readText_append (st : Quoting) (u v : List Char) :
    st.readText (u ++ v) = (st.readText u).readText v := by
  simp only [readText, List.flatMap_append, List.foldl_append]

theorem isQuote_ne_backslash (hq : isQuote q = true) : q ≠ '\\' := by
  rintro rfl
  revert hq
  decide

theorem readText_outside_cons (hc : isQuote c = false) (s : List Char) :
    Quoting.readText .outside (c :: s) = Quoting.readText .outside s := by
  rw [Quoting.readText_cons, Quoting.readText_outside, hc]
  rfl

theorem readText_outside_append (hu : ∀ c ∈ u, isQuote c = false) (s : List Char) :
    Quoting.readText .outside (u ++ s) = Quoting.readText .outside s := by
  induction u with
  | nil => rfl
  | cons c u ih =>
    obtain ⟨hc, hrest⟩ := List.forall_mem_cons.1 hu
    rw [List.cons_append, readText_outside_cons hc, ih hrest]

theorem quoted_closes (hq : isQuote q = true) (s : List Char) :
    (Closes q (quoted q s).1 ∧
      Quoting.readText (.ofQuote? (some q)) (quoted q s).1 = .outside) ∨
    Quoting.readText (.ofQuote? (some q)) s ≠ .outside := by
  have hslash := isQuote_ne_backslash hq
  -- Along the reader of strings, which keeps the state of the reader of statements.
  fun_induction quoted q s with
  | case1 => exact .inr fun hclosed => by cases hclosed
  | case2 c s hc =>
    obtain rfl := beq_iff_eq.1 hc
    refine .inl ⟨closes_singleton c, ?_⟩
    rw [Quoting.readText_inside hq hslash, if_pos rfl]
    rfl
  | case3 c hc hback =>
    obtain rfl := beq_iff_eq.1 hback
    refine .inr fun hclosed => ?_
    rw [Quoting.readText_backslash] at hclosed
    cases hclosed
  | case4 c hc hback d s r ih =>
    obtain rfl := beq_iff_eq.1 hback
    have hread : ∀ rest, Quoting.readText (.ofQuote? (some q)) ('\\' :: d :: rest) =
        Quoting.readText (.ofQuote? (some q)) rest := fun rest => by
      rw [Quoting.readText_cons, Quoting.readText_backslash, Quoting.readText_cons,
        Quoting.readText_escaping hq]
    rw [hread, hread]
    exact ih.imp_left fun hclosed => ⟨hclosed.1.escape hslash d, hclosed.2⟩
  | case5 c s hc hback r ih =>
    have hc : c ≠ q := by simpa using hc
    have hback : c ≠ '\\' := by simpa using hback
    have hread : ∀ rest, Quoting.readText (.ofQuote? (some q)) (c :: rest) =
        Quoting.readText (.ofQuote? (some q)) rest := fun rest => by
      rw [Quoting.readText_cons, Quoting.readText_inside hq hback, if_neg hc]
    rw [hread, hread]
    exact ih.imp_left fun hclosed => ⟨hclosed.1.cons hback hc, hclosed.2⟩

theorem isString_of_mem_tokenize (hs : Quoting.readText .outside s = .outside)
    (ht : t ∈ tokenize pos s) (hkind : t.kind = .string) : IsString t.chars := by
  fun_induction tokenize pos s with
  | case1 => cases ht
  | case2 pos c s hgap ih =>
    rw [readText_outside_cons (isQuote_eq_false hgap (by decide) (by decide))] at hs
    exact ih hs ht
  | case3 pos c s hgap hquote token ih =>
    have hopen : Quoting.readText .outside (c :: s) = Quoting.readText (.ofQuote? (some c)) s := by
      rw [Quoting.readText_cons, Quoting.readText_outside, if_pos hquote]
    rw [hopen] at hs
    obtain ⟨hcloses, hclosed⟩ := (quoted_closes hquote s).resolve_right (not_not_intro hs)
    rcases List.mem_cons.1 ht with rfl | ht
    · exact ⟨c, (quoted c s).1, hquote, rfl, hcloses⟩
    · rw [← quoted_append c s, Quoting.readText_append, hclosed] at hs
      exact ih hs ht
  | case4 pos c s hgap hquote hword token ih =>
    rcases List.mem_cons.1 ht with rfl | ht
    · cases hkind
    · have hrun : ∀ d ∈ s.takeWhile inIdentifier, isQuote d = false := fun d hd =>
        isQuote_eq_false (List.all_eq_true.1 List.all_takeWhile d hd) (by decide) (by decide)
      rw [readText_outside_cons (by simpa using hquote),
        ← List.takeWhile_append_dropWhile (p := inIdentifier) (l := s),
        readText_outside_append hrun] at hs
      exact ih hs ht
  | case5 pos c s hgap hquote hword ih =>
    rcases List.mem_cons.1 ht with rfl | ht
    · cases hkind
    · rw [readText_outside_cons (by simpa using hquote)] at hs
      exact ih hs ht

end Quotes

def separators : List Char := [' ', '\t', '\n', '\x0c', '\r', '-']

/-- Tokens of the text between two offsets, in order and apart from each other, and separators
between them. -/
structure Tokenizes (src : Source) (start stop : Nat) (tokens : List Token) : Prop where
  le : start ≤ stop
  occurs : ∀ t ∈ tokens, OccursAt src t.start t.chars
  nonempty : ∀ t ∈ tokens, t.start < t.stop
  inside : ∀ t ∈ tokens, start ≤ t.start ∧ t.stop ≤ stop
  apart : tokens.Pairwise fun t u => t.stop ≤ u.start
  between : ∀ i, start ≤ i → i < stop → (∀ t ∈ tokens, ¬ (t.start ≤ i ∧ i < t.stop)) →
    ∃ b ∈ separators, (bytes src)[i]? = some b

namespace Tokenizes

variable {src : Source} {s rest : List Char} {t : Token} {ts : List Token} {pos stop : Nat} {c : Char}

theorem nil (src : Source) (pos : Nat) : Tokenizes src pos pos [] where
  le := Nat.le_refl _
  occurs := nofun
  nonempty := nofun
  inside := nofun
  apart := .nil
  between _ hlow hhigh _ := absurd hhigh (Nat.not_lt.2 hlow)

theorem mem_separators (hc : isGap c = true) : c ∈ separators := by
  simp only [isGap, isAsciiBlank, Bool.or_eq_true, beq_iff_eq] at hc
  simp only [separators, List.mem_cons, List.not_mem_nil, or_false]
  tauto

theorem skip (h : Tokenizes src (pos + c.utf8Size) stop ts) (hc : isGap c = true)
    (hoccurs : OccursAt src pos (c :: s)) : Tokenizes src pos stop ts where
  le := Nat.le_trans (Nat.le_add_right ..) h.le
  occurs := h.occurs
  nonempty := h.nonempty
  inside t ht := (h.inside t ht).imp_left (Nat.le_trans (Nat.le_add_right ..))
  apart := h.apart
  between i hlow hhigh hfree := by
    have hlowc := Bytewise.low_isGap.le hc
    rcases Nat.eq_or_lt_of_le hlow with rfl | hlater
    · obtain ⟨tail, hdrop⟩ := Bytewise.OccursAt.drop_bytes hoccurs
      rw [Bytewise.bytes_low hlowc, List.cons_append] at hdrop
      exact ⟨c, mem_separators hc, (Bytewise.byteAt_of_drop hdrop).2.1⟩
    · rw [Bytewise.utf8Size_low hlowc] at h
      exact h.between i hlater hhigh hfree

theorem cons (h : Tokenizes src t.stop stop ts) (hoccurs : OccursAt src t.start t.chars)
    (hne : t.start < t.stop) : Tokenizes src t.start stop (t :: ts) where
  le := Nat.le_trans (Nat.le_of_lt hne) h.le
  occurs := List.forall_mem_cons.2 ⟨hoccurs, h.occurs⟩
  nonempty := List.forall_mem_cons.2 ⟨hne, h.nonempty⟩
  inside := List.forall_mem_cons.2 ⟨⟨Nat.le_refl _, h.le⟩, fun u hu =>
    (h.inside u hu).imp_left (Nat.le_trans (Nat.le_of_lt hne))⟩
  apart := List.pairwise_cons.2 ⟨fun u hu => (h.inside u hu).1, h.apart⟩
  between i hlow hhigh hfree := by
    obtain ⟨hhere, hlater⟩ := List.forall_mem_cons.1 hfree
    exact h.between i (Nat.le_of_not_lt fun hlt => hhere ⟨hlow, hlt⟩) hhigh hlater

theorem cons_append (hs : t.chars ++ rest = c :: s) (hpos : t.start = pos)
    (hoccurs : OccursAt src pos (c :: s)) (hne : t.chars ≠ [])
    (h : OccursAt src t.stop rest → Tokenizes src t.stop (t.stop + byteLength rest) ts) :
    Tokenizes src pos (pos + byteLength (c :: s)) (t :: ts) := by
  subst hpos
  rw [← hs] at hoccurs ⊢
  have hstop : t.start + byteLength (t.chars ++ rest) = t.stop + byteLength rest := by
    rw [byteLength_append, Token.stop, Nat.add_assoc]
  have hlonger : t.start < t.stop := by
    have hlength := length_le_byteLength t.chars
    have hpositive := List.length_pos_iff.2 hne
    rw [Token.stop]
    omega
  rw [hstop]
  exact (h hoccurs.right).cons hoccurs.left hlonger

end Tokenizes

theorem tokenizes_tokenize {src : Source} {s : List Char} {pos : Nat} (h : OccursAt src pos s) :
    Tokenizes src pos (pos + byteLength s) (tokenize pos s) := by
  fun_induction tokenize pos s with
  | case1 pos => exact .nil src pos
  | case2 pos c s hgap ih =>
    have hrest := ih (h.right (x := [c]))
    rw [byteLength_cons, ← Nat.add_assoc]
    exact hrest.skip hgap h
  | case3 pos c s hgap hquote token ih =>
    exact .cons_append (congrArg (c :: ·) (quoted_append c s)) rfl h (List.cons_ne_nil _ _) ih
  | case4 pos c s hgap hquote hword token ih =>
    exact .cons_append (congrArg (c :: ·) List.takeWhile_append_dropWhile) rfl h
      (List.cons_ne_nil _ _) ih
  | case5 pos c s hgap hquote hword ih =>
    have htext : [c] ++ s = c :: s := rfl
    exact .cons_append (t := ⟨.other, pos, [c]⟩) htext rfl h (List.cons_ne_nil _ _) ih

section Statements

/-- Where a statement ends is found without a fault. Its tokens are then read without one as well,
they are those of the text up to the terminator, and no string among them is cut off. -/
theorem statement_strings_closed (before s : List Char) :
    let src := before ++ (['{', '%'] ++ s)
    let start := byteLength before + 2
    Bytewise.statementEnd (bytes src) none start =
        .ok ((statementBody? none s).map fun p => start + byteLength p.1 + 2) ∧
      ∀ body rest, statementBody? none s = some (body, rest) →
        s = body ++ ['%', '}'] ++ rest ∧
        Bytewise.tokensFrom src (start + byteLength body) (byteLength src + 1) start =
          .ok (tokenize start body) ∧
        Tokenizes src start (start + byteLength body) (tokenize start body) ∧
        ∀ t ∈ tokenize start body, t.kind = .string → IsString t.chars := by
  intro src start
  have hbehind : Bytewise.Behind src (byteLength before) s :=
    Bytewise.behind_opening .statement before s
  refine ⟨hbehind.statementEnd_eq, fun body rest hbody => ?_⟩
  have hfinds := finds_statementBody? none nofun s
  rw [hbody] at hfinds
  obtain ⟨hsplit, hoccurs⟩ := hbehind.body hbody
  have hclosed : Quoting.readText .outside body = .outside := hfinds.1.2
  exact ⟨hsplit, hbehind.tokensFrom_eq hbody, tokenizes_tokenize hoccurs,
    fun t ht hkind => isString_of_mem_tokenize hclosed ht hkind⟩

/-- Two strings with escaped quotes, a terminator and a character of several bytes in them, the last
backslash escaped itself. -/
theorem statement_strings_closed_escapes :
    let s := " x 'it\\'s %\x7d é' - \"a\\\\\"%\x7d!".toList
    let src := "é".toList ++ (['{', '%'] ++ s)
    let body := " x 'it\\'s %\x7d é' - \"a\\\\\"".toList
    statementBody? none s = some (body, ['!']) ∧
      (tokenize 4 body).map (fun t => (t.kind, t.start, t.chars)) =
        [(.identifier, 5, ['x']), (.string, 7, "'it\\'s %\x7d é'".toList),
          (.string, 23, "\"a\\\\\"".toList)] ∧
      Tokenizes src 4 (4 + byteLength body) (tokenize 4 body) ∧
      ∀ t ∈ tokenize 4 body, t.kind = .string → IsString t.chars := by
  intro s src body
  have hbody : statementBody? none s = some (body, ['!']) := by decide +kernel
  obtain ⟨-, -, htokens, hstrings⟩ :=
    (statement_strings_closed "é".toList s).2 body ['!'] hbody
  exact ⟨hbody, by decide +kernel, htokens, hstrings⟩

end Statements

end ProjectIndex.Twig
