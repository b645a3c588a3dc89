import Mathlib.Data.List.Basic
import ProjectIndex.Grammar.Twig.Segment

/-!
How a source falls into segments. Text runs up to the next opening delimiter. A comment and an
output end at their first terminator, a statement at the first one outside quotes, where a backslash
inside quotes escapes the next byte. There is exactly one way to cut a source, and that is how it is
cut.
-/
namespace ProjectIndex.Twig

/-- Where the bytes of a statement leave a reader of quotes. -/
inductive Quoting where
  | outside
  | inside (quote : UInt8)
  | escaping (quote : UInt8)
deriving DecidableEq

namespace Quoting

def read : Quoting → UInt8 → Quoting
  | .outside, b => if b = 0x27 ∨ b = 0x22 then .inside b else .outside
  | .inside q, b => if b = 0x5C then .escaping q else if b = q then .outside else .inside q
  | .escaping q, _ => .inside q

def readText (st : Quoting) (text : List Char) : Quoting :=
  (text.flatMap String.utf8EncodeChar).foldl read st

end Quoting

inductive Delimiter where
  | comment
  | output
  | statement

namespace Delimiter

def opening : Delimiter → List Char
  | comment => ['{', '#']
  | output => ['{', '{']
  | statement => ['{', '%']

def closing : Delimiter → List Char
  | comment => ['#', '}']
  | output => ['}', '}']
  | statement => ['%', '}']

def segment : Delimiter → List Char → Bool → Segment
  | comment => .comment
  | output => .output
  | statement => .statement

def Counts (d : Delimiter) (body : List Char) : Prop :=
  match d with
  | statement => Quoting.readText .outside body = .outside
  | _ => True

end Delimiter

/-- A text cut at a terminator behind a part of it where terminators count. -/
def EndsAt (counts : List Char → Prop) (closing s body rest : List Char) : Prop :=
  s = body ++ closing ++ rest ∧ counts body

def EndsFirst (counts : List Char → Prop) (closing s body rest : List Char) : Prop :=
  EndsAt counts closing s body rest ∧
    ∀ body' rest', EndsAt counts closing s body' rest' → body.length ≤ body'.length

inductive Cuts : List Char → List Segment → Prop
  | done : Cuts [] []
  | text {chars rest : List Char} {segs : List Segment} (hne : chars ≠ [])
    (hplain : ∀ u c v, chars = u ++ c :: v → ∀ d : Delimiter, ¬ d.opening <+: c :: v ++ rest)
    (hnext : rest = [] ∨ ∃ d : Delimiter, d.opening <+: rest) (h : Cuts rest segs) :
    Cuts (chars ++ rest) (.text chars :: segs)
  | terminated (d : Delimiter) {s body rest : List Char} {segs : List Segment}
    (hbody : EndsFirst d.Counts d.closing s body rest) (h : Cuts rest segs) :
    Cuts (d.opening ++ s) (d.segment body true :: segs)
  | unterminated (d : Delimiter) {s : List Char}
    (hnone : ∀ body rest, ¬ EndsAt d.Counts d.closing s body rest) :
    Cuts (d.opening ++ s) [d.segment s false]

namespace Quoting

theorem readText_cons (st : Quoting) (c : Char) (text : List Char) :
    st.readText (c :: text) = (st.readText [c]).readText text := by
  simp only [readText, List.flatMap_cons, List.flatMap_nil, List.append_nil, List.foldl_append]

theorem toNat_eq_of_utf8EncodeChar {c : Char} (hc : c.toNat ≤ 127) :
    String.utf8EncodeChar c = [UInt8.ofNat c.toNat] := by
  unfold String.utf8EncodeChar
  exact if_pos hc

theorem high_of_mem_utf8EncodeChar {c : Char} (hc : 127 < c.toNat) :
    ∀ b ∈ String.utf8EncodeChar c, 127 < b.toNat := by
  have hbyte : ∀ n, 127 < n → n < 256 → 127 < (UInt8.ofNat n).toNat := by
    intro n hlow hhigh
    rw [UInt8.toNat_ofNat_of_lt' hhigh]
    exact hlow
  change ∀ b ∈ _, _
  unfold String.utf8EncodeChar
  have hlow : ¬ c.val.toNat ≤ 127 := Nat.not_le.2 hc
  simp only [if_neg hlow]
  split
  · simp only [List.mem_cons, List.not_mem_nil, or_false, forall_eq_or_imp, forall_eq]
    refine ⟨hbyte _ ?_ ?_, hbyte _ ?_ ?_⟩ <;> omega
  · split
    · simp only [List.mem_cons, List.not_mem_nil, or_false, forall_eq_or_imp, forall_eq]
      refine ⟨hbyte _ ?_ ?_, hbyte _ ?_ ?_, hbyte _ ?_ ?_⟩ <;> omega
    · simp only [List.mem_cons, List.not_mem_nil, or_false, forall_eq_or_imp, forall_eq]
      refine ⟨hbyte _ ?_ ?_, hbyte _ ?_ ?_, hbyte _ ?_ ?_, hbyte _ ?_ ?_⟩ <;> omega

theorem foldl_read_high {bs : List UInt8} (h : ∀ b ∈ bs, 127 < b.toNat) :
    bs.foldl read .outside = .outside ∧
      ∀ q : UInt8, q.toNat ≤ 127 → bs.foldl read (.inside q) = .inside q := by
  induction bs with
  | nil => exact ⟨rfl, fun _ _ => rfl⟩
  | cons b bs ih =>
    obtain ⟨hb, hrest⟩ := List.forall_mem_cons.1 h
    have hne : ∀ q : UInt8, q.toNat ≤ 127 → b ≠ q := by
      rintro q hq rfl
      omega
    refine ⟨?_, fun q hq => ?_⟩
    · rw [List.foldl_cons, read, if_neg fun hquote =>
        hquote.elim (hne 0x27 (by decide)) (hne 0x22 (by decide))]
      exact (ih hrest).1
    · rw [List.foldl_cons, read, if_neg (hne 0x5C (by decide)), if_neg (hne q hq)]
      exact (ih hrest).2 q hq

def ofQuote? : Option Char → Quoting
  | none => .outside
  | some q => .inside (UInt8.ofNat q.toNat)

theorem readText_singleton_of_high {c : Char} (hc : 127 < c.toNat) :
    readText .outside [c] = .outside ∧
      ∀ q : UInt8, q.toNat ≤ 127 →
        readText (.inside q) [c] = .inside q ∧ readText (.escaping q) [c] = .inside q := by
  have hbytes := high_of_mem_utf8EncodeChar hc
  simp only [readText, List.flatMap_cons, List.flatMap_nil, List.append_nil]
  refine ⟨(foldl_read_high hbytes).1, fun q hq => ⟨(foldl_read_high hbytes).2 q hq, ?_⟩⟩
  cases hencode : String.utf8EncodeChar c with
  | nil =>
    have hlength := congrArg List.length hencode
    rw [String.length_utf8EncodeChar] at hlength
    exact absurd hlength (Nat.ne_of_gt c.utf8Size_pos)
  | cons b bs =>
    rw [hencode] at hbytes
    exact (foldl_read_high (List.forall_mem_cons.1 hbytes).2).2 q hq

theorem readText_singleton_of_low {c : Char} (hc : c.toNat ≤ 127) (st : Quoting) :
    st.readText [c] = st.read (UInt8.ofNat c.toNat) := by
  simp only [readText, List.flatMap_cons, List.flatMap_nil, List.append_nil,
    toNat_eq_of_utf8EncodeChar hc, List.foldl_cons, List.foldl_nil]

theorem ofNat_toNat_eq_iff {c d : Char} (hc : c.toNat ≤ 127) (hd : d.toNat ≤ 127) :
    UInt8.ofNat c.toNat = UInt8.ofNat d.toNat ↔ c = d := by
  refine ⟨fun h => ?_, fun h => h ▸ rfl⟩
  have hnat := congrArg UInt8.toNat h
  rw [UInt8.toNat_ofNat_of_lt' (by change c.toNat < 256; omega),
    UInt8.toNat_ofNat_of_lt' (by change d.toNat < 256; omega)] at hnat
  exact Char.toNat_inj.1 hnat

theorem readText_outside (c : Char) :
    readText .outside [c] = ofQuote? (if isQuote c then some c else none) := by
  by_cases hc : c.toNat ≤ 127
  · have hquote : isQuote c = true ↔
        UInt8.ofNat c.toNat = 0x27 ∨ UInt8.ofNat c.toNat = 0x22 := by
      have hone := ofNat_toNat_eq_iff (d := '\'') hc (by decide)
      have htwo := ofNat_toNat_eq_iff (d := '"') hc (by decide)
      rw [isQuote, Bool.or_eq_true, beq_iff_eq, beq_iff_eq, ← hone, ← htwo]
      rfl
    rw [readText_singleton_of_low hc, read]
    by_cases hq : isQuote c = true
    · rw [if_pos (hquote.1 hq), if_pos hq]
      rfl
    · rw [if_neg (mt hquote.2 hq), if_neg hq]
      rfl
  · have hnot : isQuote c = false := by
      rw [isQuote, Bool.or_eq_false_iff, beq_eq_false_iff_ne, beq_eq_false_iff_ne]
      refine ⟨?_, ?_⟩ <;> rintro rfl <;> exact hc (by decide)
    rw [(readText_singleton_of_high (Nat.lt_of_not_le hc)).1, hnot]
    rfl

theorem isQuote_le {q : Char} (hq : isQuote q = true) : q.toNat ≤ 127 := by
  rw [isQuote, Bool.or_eq_true, beq_iff_eq, beq_iff_eq] at hq
  rcases hq with rfl | rfl <;> decide

theorem toNat_ofNat_le {q : Char} (hq : q.toNat ≤ 127) : (UInt8.ofNat q.toNat).toNat ≤ 127 := by
  rw [UInt8.toNat_ofNat_of_lt' (by change q.toNat < 256; omega)]
  exact hq

theorem readText_escaping {q : Char} (hq : isQuote q = true) (c : Char) :
    readText (.escaping (UInt8.ofNat q.toNat)) [c] = ofQuote? (some q) := by
  by_cases hc : c.toNat ≤ 127
  · rw [readText_singleton_of_low hc]
    rfl
  · exact ((readText_singleton_of_high (Nat.lt_of_not_le hc)).2 _
      (toNat_ofNat_le (isQuote_le hq))).2

theorem readText_backslash (q : Char) :
    readText (ofQuote? (some q)) ['\\'] = .escaping (UInt8.ofNat q.toNat) := by
  rw [readText_singleton_of_low (by decide)]
  rfl

theorem readText_inside {q c : Char} (hq : isQuote q = true) (hc : c ≠ '\\') :
    readText (ofQuote? (some q)) [c] = ofQuote? (if c = q then none else some q) := by
  by_cases hlow : c.toNat ≤ 127
  · have hslash := ofNat_toNat_eq_iff (d := '\\') hlow (by decide)
    have hsame := ofNat_toNat_eq_iff hlow (isQuote_le hq)
    have hbackslash : UInt8.ofNat c.toNat ≠ 0x5C := mt hslash.1 hc
    rw [readText_singleton_of_low hlow, ofQuote?, read, if_neg hbackslash]
    by_cases hcq : c = q
    · rw [if_pos (hsame.2 hcq), if_pos hcq]
      rfl
    · rw [if_neg (mt hsame.1 hcq), if_neg hcq]
      rfl
  · have hcq : c ≠ q := fun h => hlow (h ▸ isQuote_le hq)
    rw [if_neg hcq]
    exact ((readText_singleton_of_high (Nat.lt_of_not_le hlow)).2 _
      (toNat_ofNat_le (isQuote_le hq))).1

end Quoting

section Ends

variable {counts : List Char → Prop} {closing s body rest : List Char}

theorem EndsFirst.unique {body' rest' : List Char} (h : EndsFirst counts closing s body rest)
    (h' : EndsFirst counts closing s body' rest') : body = body' ∧ rest = rest' := by
  have hlength : body.length = body'.length :=
    Nat.le_antisymm (h.2 _ _ h'.1) (h'.2 _ _ h.1)
  have hsame : body ++ (closing ++ rest) = body' ++ (closing ++ rest') := by
    rw [← List.append_assoc, ← List.append_assoc]
    exact h.1.1.symm.trans h'.1.1
  obtain ⟨hbody, htail⟩ := List.append_inj hsame hlength
  exact ⟨hbody, List.append_cancel_left htail⟩

def Finds (counts : List Char → Prop) (closing s : List Char) :
    Option (List Char × List Char) → Prop
  | some (body, rest) => EndsFirst counts closing s body rest
  | none => ∀ body rest, ¬ EndsAt counts closing s body rest

theorem Finds.cons {c : Char} {found : Option (List Char × List Char)}
    (hhere : ∀ rest, ¬ EndsAt counts closing (c :: s) [] rest)
    (h : Finds (fun body => counts (c :: body)) closing s found) :
    Finds counts closing (c :: s) (found.map fun p => (c :: p.1, p.2)) := by
  have hstep : ∀ body' rest', EndsAt counts closing (c :: s) body' rest' →
      ∃ inner, body' = c :: inner ∧
        EndsAt (fun body => counts (c :: body)) closing s inner rest' := by
    intro body' rest' hends
    cases body' with
    | nil => exact absurd hends (hhere rest')
    | cons d inner =>
      obtain ⟨hsplit, hcounts⟩ := hends
      obtain ⟨rfl, hs⟩ : c = d ∧ s = inner ++ closing ++ rest' := by simpa using hsplit
      exact ⟨inner, rfl, hs, hcounts⟩
  cases found with
  | none =>
    intro body' rest' hends
    obtain ⟨inner, _, hinner⟩ := hstep body' rest' hends
    exact h inner rest' hinner
  | some p =>
    obtain ⟨⟨hsplit, hcounts⟩, hfirst⟩ := h
    refine ⟨⟨?_, hcounts⟩, fun body' rest' hends => ?_⟩
    · rw [hsplit]
      rfl
    · obtain ⟨inner, rfl, hinner⟩ := hstep body' rest' hends
      exact Nat.succ_le_succ (hfirst inner rest' hinner)

theorem Finds.here (hs : s = closing ++ rest) (hcounts : counts []) :
    Finds counts closing s (some ([], rest)) :=
  ⟨⟨hs, hcounts⟩, fun _ _ _ => Nat.zero_le _⟩

theorem Finds.short (h : s.length < closing.length) : Finds counts closing s none := by
  rintro body rest ⟨rfl, _⟩
  simp only [List.length_append] at h
  omega

end Ends

theorem finds_splitAtFirst {closing : List Char} (hne : closing ≠ []) (s : List Char) :
    Finds (fun _ => True) closing s (Text.splitAtFirst closing s) := by
  induction s with
  | nil =>
    rw [Text.splitAtFirst, if_neg (by simpa using hne)]
    exact Finds.short (List.length_pos_of_ne_nil hne)
  | cons c s ih =>
    rw [Text.splitAtFirst]
    split
    · next hprefix =>
      obtain ⟨rest, hrest⟩ := List.isPrefixOf_iff_prefix.1 hprefix
      rw [← hrest, List.drop_left]
      exact Finds.here rfl trivial
    · next hprefix =>
      refine Finds.cons (fun rest hends => hprefix ?_) ih
      exact List.isPrefixOf_iff_prefix.2 ⟨rest, hends.1.symm⟩

/-- A reader of quotes that has read a character goes on as one that has still to read it. -/
theorem Finds.behind {st : Quoting} {c : Char} {closing s : List Char}
    {found : Option (List Char × List Char)}
    (h : Finds (fun body => (st.readText [c]).readText body = .outside) closing s found) :
    Finds (fun body => st.readText (c :: body) = .outside) closing s found := by
  have hcounts : (fun body => st.readText (c :: body) = .outside) =
      fun body => (st.readText [c]).readText body = .outside :=
    funext fun body => congrArg (· = Quoting.outside) (st.readText_cons c body)
  exact hcounts ▸ h

/-- A statement is read with the quote that is open; the texts on which the reader is outside are
those behind which its terminator counts. -/
theorem finds_statementBody? (q : Option Char) (hq : ∀ c, q = some c → isQuote c = true)
    (s : List Char) :
    Finds (fun body => (Quoting.ofQuote? q).readText body = .outside) ['%', '}'] s
      (statementBody? q s) := by
  fun_induction statementBody? q s with
  | case1 q => exact Finds.short (by simp)
  | case2 c => exact Finds.short (by simp)
  | case3 c d s hterminator =>
    simp only [Bool.and_eq_true, beq_iff_eq] at hterminator
    obtain ⟨rfl, rfl⟩ := hterminator
    exact Finds.here rfl rfl
  | case4 c d s hterminator ih =>
    refine Finds.cons (fun rest hends => hterminator ?_) ?_
    · obtain ⟨rfl, rfl, _⟩ : c = '%' ∧ d = '}' ∧ s = rest := by simpa using hends.1
      rfl
    · have hnext := ih fun e he => by
        split at he
        · next hc => exact Option.some.inj he ▸ hc
        · cases he
      rw [← Quoting.readText_outside] at hnext
      exact hnext.behind
  | case5 q c hslash => exact Finds.short (by simp)
  | case6 q c hslash d s ih =>
    simp only [beq_iff_eq] at hslash
    subst hslash
    have hnext := ih hq
    rw [← Quoting.readText_escaping (hq q rfl) d, ← Quoting.readText_backslash] at hnext
    -- neither the backslash nor the character it escapes can begin the terminator
    have hinner : Finds (fun body => ((Quoting.ofQuote? (some q)).readText ['\\']).readText body =
        .outside) ['%', '}'] (d :: s)
        ((statementBody? (some q) s).map fun p => (d :: p.1, p.2)) := by
      refine Finds.cons (fun rest hends => ?_) hnext.behind
      have hstate := hends.2
      rw [Quoting.readText_backslash] at hstate
      cases hstate
    have houter : Finds (fun body => (Quoting.ofQuote? (some q)).readText body = .outside)
        ['%', '}'] ('\\' :: d :: s) _ :=
      Finds.cons (fun rest hends => by cases hends.2) hinner.behind
    rw [Option.map_map] at houter
    exact houter
  | case7 q c s hslash ih =>
    have hne : c ≠ '\\' := by simpa using hslash
    refine Finds.cons (fun rest hends => by cases hends.2) ?_
    have hnext := ih fun e he => by
      split at he
      · cases he
      · exact Option.some.inj he ▸ hq q rfl
    simp only [beq_iff_eq, ← Quoting.readText_inside (hq q rfl) hne] at hnext ⊢
    exact hnext.behind

theorem opens_iff {s : List Char} : opens s = true ↔ ∃ d : Delimiter, d.opening <+: s := by
  constructor
  · intro h
    unfold opens at h
    split at h
    · next c rest =>
      simp only [Bool.or_eq_true, beq_iff_eq] at h
      rcases h with (rfl | rfl) | rfl
      · exact ⟨.output, rest, rfl⟩
      · exact ⟨.statement, rest, rfl⟩
      · exact ⟨.comment, rest, rfl⟩
    · cases h
  · rintro ⟨d, rest, rfl⟩
    cases d <;> rfl

def terminator? : Delimiter → List Char → Option (List Char × List Char)
  | .comment, s => Text.splitAtFirst ['#', '}'] s
  | .output, s => Text.splitAtFirst ['}', '}'] s
  | .statement, s => statementBody? none s

theorem finds_terminator? (d : Delimiter) (s : List Char) :
    Finds d.Counts d.closing s (terminator? d s) := by
  cases d with
  | comment => exact finds_splitAtFirst (List.cons_ne_nil _ _) s
  | output => exact finds_splitAtFirst (List.cons_ne_nil _ _) s
  | statement => exact finds_statementBody? none nofun s

theorem EndsFirst.terminator?_eq {d : Delimiter} {s body rest : List Char}
    (h : EndsFirst d.Counts d.closing s body rest) : terminator? d s = some (body, rest) := by
  have hfinds := finds_terminator? d s
  cases hfound : terminator? d s with
  | none =>
    rw [hfound] at hfinds
    exact absurd h.1 (hfinds body rest)
  | some p =>
    rw [hfound] at hfinds
    obtain ⟨rfl, rfl⟩ := h.unique hfinds
    rfl

theorem cut_opening (d : Delimiter) (s : List Char) :
    cut (d.opening ++ s) =
      match terminator? d s with
      | some (body, rest) => d.segment body true :: cut rest
      | none => [d.segment s false] := by
  have hopens : ∀ c : Char, (c == '{' || c == '%' || c == '#') = true →
      opens ('{' :: c :: s) = true := fun _ hc => hc
  cases d with
  | comment =>
    change cut ('{' :: '#' :: s) = _
    rw [cut]
    simp only [hopens '#' rfl, if_true, beq_self_eq_true, terminator?, Delimiter.segment]
    split <;> simp_all
  | output =>
    change cut ('{' :: '{' :: s) = _
    rw [cut]
    simp only [hopens '{' rfl, if_true, beq_self_eq_true, show ('{' == '#') = false from rfl,
      Bool.false_eq_true, if_false, terminator?, Delimiter.segment]
    split <;> simp_all
  | statement =>
    change cut ('{' :: '%' :: s) = _
    rw [cut]
    simp only [hopens '%' rfl, if_true, show ('%' == '#') = false from rfl,
      show ('%' == '{') = false from rfl, Bool.false_eq_true, if_false, terminator?,
      Delimiter.segment]
    split <;> simp_all

theorem cut_text {c : Char} {s : List Char} (h : opens (c :: s) = false) :
    cut (c :: s) = .text (c :: (textRun s).1) :: cut (textRun s).2 := by
  rw [cut.eq_def]
  simp only [h]
  rfl

theorem textRun_eq {chars rest : List Char}
    (hplain : ∀ u c v, chars = u ++ c :: v → opens (c :: v ++ rest) = false)
    (hnext : rest = [] ∨ opens rest = true) : textRun (chars ++ rest) = (chars, rest) := by
  induction chars with
  | nil =>
    cases rest with
    | nil => rfl
    | cons c rest =>
      have hopens : opens (c :: rest) = true := hnext.resolve_left (by simp)
      rw [List.nil_append, textRun, if_pos hopens]
  | cons c chars ih =>
    have hc : opens (c :: (chars ++ rest)) = false := hplain [] c chars rfl
    have hrun := ih fun u d v hsplit => hplain (c :: u) d v (by rw [hsplit]; rfl)
    rw [List.cons_append, textRun, hc, hrun]
    rfl

theorem textRun_spec (s : List Char) :
    s = (textRun s).1 ++ (textRun s).2 ∧
      (∀ u c v, (textRun s).1 = u ++ c :: v → opens (c :: v ++ (textRun s).2) = false) ∧
      ((textRun s).2 = [] ∨ opens (textRun s).2 = true) := by
  induction s with
  | nil => simp [textRun]
  | cons c s ih =>
    obtain ⟨hjoin, hplain, hnext⟩ := ih
    rw [textRun]
    split
    · next hopens => exact ⟨rfl, by simp, .inr hopens⟩
    · next hopens =>
      refine ⟨by rw [List.cons_append, ← hjoin], fun u d v hsplit => ?_, hnext⟩
      cases u with
      | nil =>
        obtain ⟨rfl, rfl⟩ : c = d ∧ (textRun s).1 = v := by simpa using hsplit
        rw [List.cons_append, ← hjoin]
        simpa using hopens
      | cons e u =>
        obtain ⟨_, hrest⟩ : c = e ∧ (textRun s).1 = u ++ d :: v := by simpa using hsplit
        exact hplain u d v hrest

theorem not_opening_iff {s : List Char} :
    (∀ d : Delimiter, ¬ d.opening <+: s) ↔ opens s = false := by
  rw [← not_exists, ← opens_iff, Bool.not_eq_true]

theorem cuts_cut (s : List Char) : Cuts s (cut s) := by
  -- On the length: what is left behind a segment is shorter.
  induction hlength : s.length using Nat.strongRecOn generalizing s with
  | _ n ih =>
    cases s with
    | nil =>
      rw [cut]
      exact .done
    | cons c s =>
      by_cases hopens : opens (c :: s) = true
      · obtain ⟨d, rest, hrest⟩ := opens_iff.1 hopens
        have hfinds := finds_terminator? d rest
        rw [← hrest, cut_opening]
        cases hfound : terminator? d rest with
        | none =>
          rw [hfound] at hfinds
          exact .unterminated d hfinds
        | some p =>
          rw [hfound] at hfinds
          have hshorter : p.2.length < n := by
            have htotal := congrArg List.length hfinds.1.1
            have hwhole := congrArg List.length hrest
            simp only [List.length_append] at htotal hwhole
            have hopening : 0 < d.opening.length := by cases d <;> decide
            omega
          exact .terminated d hfinds (ih _ hshorter _ rfl)
      · have hclosed : opens (c :: s) = false := by simpa using hopens
        obtain ⟨hjoin, hplain, hnext⟩ := textRun_spec s
        have hshorter : (textRun s).2.length < n := by
          have := length_textRun s
          rw [← hlength, List.length_cons]
          omega
        have hsource : c :: s = (c :: (textRun s).1) ++ (textRun s).2 := by
          rw [List.cons_append, ← hjoin]
        rw [cut_text hclosed]
        conv => arg 1; rw [hsource]
        refine .text (by simp) (fun u e v hsplit => not_opening_iff.2 ?_)
          (hnext.imp_right opens_iff.1) (ih _ hshorter _ rfl)
        cases u with
        | nil =>
          obtain ⟨rfl, rfl⟩ : c = e ∧ (textRun s).1 = v := by simpa using hsplit
          rw [← hsource]
          exact hclosed
        | cons e' u =>
          obtain ⟨_, hrest⟩ : c = e' ∧ (textRun s).1 = u ++ e :: v := by simpa using hsplit
          exact hplain u e v hrest

theorem Cuts.eq_cut {s : List Char} {segs : List Segment} (h : Cuts s segs) : segs = cut s := by
  induction h with
  | done => rw [cut]
  | @text chars rest segs hne hplain hnext _ ih =>
    obtain ⟨c, chars, rfl⟩ := List.exists_cons_of_ne_nil hne
    have hclosed : ∀ u d v, c :: chars = u ++ d :: v → opens (d :: v ++ rest) = false :=
      fun u d v hsplit => not_opening_iff.1 (hplain u d v hsplit)
    have hrun : textRun (chars ++ rest) = (chars, rest) :=
      textRun_eq (fun u d v hsplit => hclosed (c :: u) d v (by rw [hsplit]; rfl))
        (hnext.imp_right opens_iff.2)
    have hopens : opens (c :: (chars ++ rest)) = false := hclosed [] c chars rfl
    rw [List.cons_append, cut_text hopens, hrun, ih]
  | @terminated d s body rest segs hbody _ ih => rw [cut_opening, hbody.terminator?_eq, ih]
  | @unterminated d s hnone =>
    have hfinds := finds_terminator? d s
    rw [cut_opening]
    cases hfound : terminator? d s with
    | none => rfl
    | some p =>
      rw [hfound] at hfinds
      exact absurd hfinds.1 (hnone _ _)

theorem cuts_iff {s : List Char} {segs : List Segment} : Cuts s segs ↔ segs = cut s :=
  ⟨Cuts.eq_cut, fun h => h ▸ cuts_cut s⟩

end ProjectIndex.Twig
