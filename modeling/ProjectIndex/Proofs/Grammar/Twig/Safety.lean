import Mathlib.Data.List.Basic
import ProjectIndex.Proofs.Grammar.Twig.Bytewise
import ProjectIndex.Proofs.Grammar.Twig.Placement

/-!
A source can be read from its bytes, whatever it is. The tokens of a statement and the segments of a
source come out as from the characters, and the nodes they give lie in the source and in each other.
-/
namespace ProjectIndex.Twig

open ProjectIndex.Text ProjectIndex.Shape

namespace Bytewise

section Tokens

variable {src s rest : List Char} {i stop rounds : Nat} {t : Token} {ts : List Token} {c : Char}

theorem cutOut_of_occursAt (h : OccursAt src i s) (hstop : i + byteLength s = stop) :
    cutOut src i stop = .ok s := by
  obtain ⟨u, w, rfl, rfl⟩ := h
  subst hstop
  rw [cutOut, if_pos (Nat.le_add_right ..), List.append_assoc, dropBytes?_append,
    Nat.add_sub_cancel_left, Option.bind_some, takeBytes?_append]

theorem OccursAt.drop_bytes (h : OccursAt src i s) :
    ∃ tail, (bytes src).drop i = bytes s ++ tail := by
  obtain ⟨u, w, rfl, rfl⟩ := h
  refine ⟨bytes w, ?_⟩
  rw [List.append_assoc, bytes_append, bytes_append, ← length_bytes]
  exact List.drop_left

theorem byteAt_of_occursAt (h : OccursAt src i (c :: s)) :
    ∃ b, byteAt (bytes src) i = .ok b ∧ (c.toNat ≤ 127 → b = c) ∧ ∀ p, Low p → p b = p c := by
  obtain ⟨tail, hdrop⟩ := OccursAt.drop_bytes h
  obtain ⟨b, hs, heq, _, _, hlow, hclass⟩ := head_bytes c s
  rw [heq] at hdrop
  exact ⟨b, (byteAt_of_drop hdrop).2.2.1, hlow, hclass⟩

theorem tokensFrom_cons (hs : t.chars ++ rest = c :: s) (h : OccursAt src t.start (c :: s))
    (hstop : t.start + byteLength (c :: s) = stop) (hgap : isGap c = false)
    (htoken : ∀ b, (c.toNat ≤ 127 → b = c) → (∀ p, Low p → p b = p c) →
      tokenAt src stop t.start b = .ok (t.kind, t.stop))
    (hrest : OccursAt src t.stop rest → t.stop + byteLength rest = stop →
      tokensFrom src stop rounds t.stop = .ok ts) :
    tokensFrom src stop (rounds + 1) t.start = .ok (t :: ts) := by
  obtain ⟨b, hbyte, hlow, hclass⟩ := byteAt_of_occursAt h
  have hcut : cutOut src t.start t.stop = .ok t.chars := cutOut_of_occursAt (hs ▸ h).left rfl
  have hlt : t.start < stop := by
    have hpos := c.utf8Size_pos
    rw [byteLength_cons] at hstop
    omega
  have hnext : tokensFrom src stop rounds t.stop = .ok ts := by
    rw [← hs, byteLength_append, ← Nat.add_assoc] at hstop
    exact hrest (hs ▸ h).right hstop
  rw [tokensFrom, if_pos hlt, hbyte]
  change (if isGap b = true then _ else _) = _
  rw [hclass _ low_isGap, hgap, htoken b hlow hclass]
  change (cutOut src t.start t.stop >>= _) = _
  rw [hcut]
  change (tokensFrom src stop rounds t.stop >>= _) = _
  rw [hnext]
  rfl

theorem tokenAt_string (h : OccursAt src i (c :: s)) (hc : isQuote c = true)
    (hstop : i + byteLength (c :: s) = stop) :
    tokenAt src stop i c = .ok (.string, i + byteLength (c :: (quoted c s).1)) := by
  obtain ⟨tail, hdrop⟩ := OccursAt.drop_bytes h
  have hbehind := drop_behind hdrop
  rw [utf8Size_low (low_isQuote.le hc)] at hbehind
  rw [byteLength_cons, utf8Size_low (low_isQuote.le hc), ← Nat.add_assoc] at hstop ⊢
  obtain ⟨j, hj, hmin⟩ := stringEnd_eq hc hbehind hstop
  rw [tokenAt, hc, if_pos rfl, hj, ← hmin]
  rfl

theorem tokenAt_identifier (h : OccursAt src i (c :: s)) (hquote : isQuote c = false)
    (hc : startsIdentifier c = true) (hstop : i + byteLength (c :: s) = stop) :
    tokenAt src stop i c = .ok (.identifier, i + byteLength (c :: s.takeWhile inIdentifier)) := by
  obtain ⟨tail, hdrop⟩ := OccursAt.drop_bytes h
  have hword : inIdentifier c = true := by
    simp only [startsIdentifier, inIdentifier, Char.isAlphanum, Bool.or_eq_true] at hc ⊢
    exact hc.imp_left .inl
  have hend := wordEnd_eq hdrop hstop
  rw [List.takeWhile_cons_of_pos hword] at hend
  rw [tokenAt, hquote, hc, hend]
  rfl

theorem tokenAt_other (h : OccursAt src i (c :: s)) (hquote : isQuote c = false)
    (hword : startsIdentifier c = false) {b : Char} (hclass : ∀ p, Low p → p b = p c) :
    tokenAt src stop i b = .ok (.other, i + byteLength [c]) := by
  obtain ⟨u, w, rfl, rfl⟩ := h
  have hrest : cutOut (u ++ (c :: s) ++ w) (byteLength u) (byteLength (u ++ (c :: s) ++ w)) =
      .ok ((c :: s) ++ w) :=
    cutOut_of_occursAt ⟨u, [], by simp, rfl⟩ (by simp)
  rw [tokenAt, hclass _ low_isQuote, hclass _ low_startsIdentifier, hquote, hword, hrest]
  rfl

theorem tokensFrom_eq (h : OccursAt src i s) (hstop : i + byteLength s = stop)
    (hrounds : s.length ≤ rounds) :
    tokensFrom src stop (rounds + 1) i = .ok (tokenize i s) := by
  -- Along the tokenizer: every case of it is one round of the reader of bytes.
  fun_induction tokenize i s generalizing rounds with
  | case1 i =>
    have hend : ¬ i < stop := Nat.not_lt.2 (Nat.le_of_eq hstop.symm)
    rw [tokensFrom, if_neg hend]
    rfl
  | case2 i c s hgap ih =>
    obtain ⟨b, hbyte, hlow, _⟩ := byteAt_of_occursAt h
    obtain rfl := hlow (low_isGap.le hgap)
    rw [byteLength_cons] at hstop
    have hlt : i < stop := by
      have hpos := b.utf8Size_pos
      omega
    rw [List.length_cons] at hrounds
    cases rounds with
    | zero => omega
    | succ rounds =>
      have hrest : tokensFrom src stop (rounds + 1) (i + b.utf8Size) = _ :=
        ih (h.right (x := [b])) (by omega) (by omega)
      rw [utf8Size_low (low_isGap.le hgap)] at hrest ⊢
      rw [tokensFrom, if_pos hlt, hbyte]
      change (if isGap b = true then _ else _) = _
      rw [if_pos hgap]
      exact hrest
  | case3 i c s hgap hquote token =>
    rename_i ih
    have hlength := length_quoted c s
    rw [List.length_cons] at hrounds
    cases rounds with
    | zero => omega
    | succ rounds =>
      refine tokensFrom_cons (t := token) (congrArg (c :: ·) (quoted_append c s)) h hstop
        (by simpa using hgap) (fun b hlow _ => ?_) fun hrest hend => ih hrest hend (by omega)
      obtain rfl := hlow (low_isQuote.le hquote)
      exact tokenAt_string h hquote hstop
  | case4 i c s hgap hquote hword token =>
    rename_i ih
    have hlength := length_dropWhile_le inIdentifier s
    rw [List.length_cons] at hrounds
    cases rounds with
    | zero => omega
    | succ rounds =>
      refine tokensFrom_cons (t := token) (congrArg (c :: ·) List.takeWhile_append_dropWhile) h
        hstop (by simpa using hgap) (fun b hlow _ => ?_) fun hrest hend => ih hrest hend (by omega)
      obtain rfl := hlow (low_startsIdentifier.le hword)
      exact tokenAt_identifier h (by simpa using hquote) hword hstop
  | case5 i c s hgap hquote hword ih =>
    rw [List.length_cons] at hrounds
    cases rounds with
    | zero => omega
    | succ rounds =>
      have htext : [c] ++ s = c :: s := rfl
      refine tokensFrom_cons (t := ⟨.other, i, [c]⟩) htext h hstop (by simpa using hgap)
        (fun b _ hclass => ?_) fun hrest hend => ih hrest hend (by omega)
      exact tokenAt_other h (by simpa using hquote) (by simpa using hword) hclass

end Tokens

section Segments

variable {src s : List Char} {b : TreeBuilder} {pos rounds : Nat}

def pastText (b : TreeBuilder) (pos : Nat) (s : List Char) : TreeBuilder :=
  if (textRun s).1.all isBlank then b
  else b.leaf "content" true pos (pos + byteLength (textRun s).1)

theorem addSegments_textRun (b : TreeBuilder) (pos : Nat) (s : List Char) :
    addSegments b pos (cut s) =
      addSegments (pastText b pos s) (pos + byteLength (textRun s).1) (cut (textRun s).2) := by
  cases s with
  | nil => rfl
  | cons c s =>
    cases hopens : opens (c :: s) with
    | true =>
      rw [pastText, textRun, hopens]
      rfl
    | false =>
      rw [cut_text hopens, pastText, textRun, hopens]
      rfl

theorem addContent_eq {t : List Char} (h : OccursAt src pos t) :
    addContent src b pos (pos + byteLength t) =
      .ok (if t.all isBlank then b else b.leaf "content" true pos (pos + byteLength t)) := by
  rw [addContent, cutOut_of_occursAt h rfl]
  rfl

/-- The text behind a delimiter that opens a segment, up to the end of the source. -/
structure Behind (src : Source) (pos : Nat) (s : List Char) : Prop where
  occurs : OccursAt src (pos + 2) s
  whole : pos + 2 + byteLength s = byteLength src

theorem behind_opening (d : Delimiter) (u s : List Char) :
    Behind (u ++ (d.opening ++ s)) (byteLength u) s := by
  have hopening : byteLength d.opening = 2 := by cases d <;> rfl
  exact ⟨⟨u ++ d.opening, [], by simp, by rw [byteLength_append, hopening]⟩, by
    rw [byteLength_append, byteLength_append, hopening, Nat.add_assoc]⟩

theorem Behind.cutOut (h : Behind src pos s) :
    cutOut src (pos + 2) (byteLength src) = .ok s :=
  cutOut_of_occursAt h.occurs h.whole

theorem Behind.drop_bytes (h : Behind src pos s) : (bytes src).drop (pos + 2) = bytes s := by
  obtain ⟨tail, hdrop⟩ := OccursAt.drop_bytes h.occurs
  have hlength := congrArg List.length hdrop
  have hwhole := h.whole
  rw [List.length_drop, List.length_append, length_bytes, length_bytes] at hlength
  have hnil : tail = [] := List.length_eq_zero_iff.1 (by omega)
  rw [hdrop, hnil, List.append_nil]

theorem closeSimple_eq (h : Behind src pos s) (b : TreeBuilder) (kind : String)
    {closing : List Char} :
    closeSimple src b kind closing pos =
      .ok (match splitAtFirst closing s with
        | some (body, _) =>
          let stop := pos + 2 + byteLength body + 2
          (b.leaf kind true pos stop, stop)
        | none => (addErrorLeaf b kind pos (byteLength src), byteLength src)) := by
  rw [closeSimple, h.cutOut]
  change (match splitAtFirst closing s with | some (body, _) => _ | none => _) = _
  cases splitAtFirst closing s with
  | none => rfl
  | some p => rfl

theorem Behind.statementEnd_eq (h : Behind src pos s) :
    statementEnd (bytes src) none (pos + 2) =
      .ok ((statementBody? none s).map fun p => pos + 2 + byteLength p.1 + 2) :=
  Bytewise.statementEnd_eq nofun h.drop_bytes

theorem Behind.body {body rest : List Char} (h : Behind src pos s)
    (hbody : statementBody? none s = some (body, rest)) :
    s = body ++ ['%', '}'] ++ rest ∧ OccursAt src (pos + 2) body := by
  have hfinds := finds_statementBody? none nofun s
  rw [hbody] at hfinds
  have hsplit : s = body ++ ['%', '}'] ++ rest := hfinds.1.1
  have hoccurs := h.occurs
  rw [hsplit, List.append_assoc] at hoccurs
  exact ⟨hsplit, hoccurs.left⟩

theorem Behind.tokensFrom_eq {body rest : List Char} (h : Behind src pos s)
    (hbody : statementBody? none s = some (body, rest)) :
    tokensFrom src (pos + 2 + byteLength body) (byteLength src + 1) (pos + 2) =
      .ok (tokenize (pos + 2) body) := by
  obtain ⟨_, hoccurs⟩ := h.body hbody
  have hrounds : body.length ≤ byteLength src :=
    Nat.le_trans (length_le_byteLength body) (Nat.le_trans (Nat.le_add_left ..) hoccurs.stop.le)
  exact Bytewise.tokensFrom_eq hoccurs rfl hrounds

theorem readStatement_eq (h : Behind src pos s) (b : TreeBuilder) :
    readStatement src b pos =
      .ok (match statementBody? none s with
        | some (body, _) =>
          let stop := pos + 2 + byteLength body + 2
          (addStatement b pos stop (tokenize (pos + 2) body), stop)
        | none => (addErrorLeaf b "tag" pos (byteLength src), byteLength src)) := by
  rw [readStatement, h.statementEnd_eq]
  cases hbody : statementBody? none s with
  | none => rfl
  | some p =>
    obtain ⟨body, rest⟩ := p
    change (tokensFrom src (pos + 2 + byteLength body) (byteLength src + 1) (pos + 2) >>= _) = _
    rw [h.tokensFrom_eq hbody]
    rfl

theorem readDelimited_of_behind (h : Behind src pos s) (d : Delimiter) (b : TreeBuilder)
    (hbyte : ∀ e, d.opening = ['{', e] → byteAt (bytes src) (pos + 1) = .ok e) :
    readDelimited src b pos =
      .ok (match terminator? d s with
        | some (body, _) =>
          let seg := d.segment body true
          (addSegment b pos seg, pos + byteLength seg.chars)
        | none =>
          let seg := d.segment s false
          (addSegment b pos seg, pos + byteLength seg.chars)) := by
  have hstop : ∀ body, pos + byteLength (d.segment body true).chars =
      pos + 2 + byteLength body + 2 := fun body => by
    rw [byteLength_segment, Nat.add_assoc, Nat.add_assoc, Nat.add_assoc]
  -- Without a terminator the segment reaches to the end of the source.
  have hopen : pos + byteLength (d.segment s false).chars = byteLength src := by
    have hopening : byteLength d.opening = 2 := by cases d <;> rfl
    rw [← h.whole, chars_segment, byteLength_append, hopening, Nat.add_assoc]
    simp
  cases d with
  | comment =>
    rw [readDelimited, hbyte '#' rfl]
    refine (closeSimple_eq h b "comment").trans ?_
    rw [terminator?]
    cases splitAtFirst ['#', '}'] s with
    | none => dsimp only; rw [hopen, ← hopen]; rfl
    | some p => dsimp only; rw [hstop, ← hstop]; rfl
  | output =>
    rw [readDelimited, hbyte '{' rfl]
    refine (closeSimple_eq h b "output").trans ?_
    rw [terminator?]
    cases splitAtFirst ['}', '}'] s with
    | none => dsimp only; rw [hopen, ← hopen]; rfl
    | some p => dsimp only; rw [hstop, ← hstop]; rfl
  | statement =>
    rw [readDelimited, hbyte '%' rfl]
    refine (readStatement_eq h b).trans ?_
    rw [terminator?]
    cases statementBody? none s with
    | none => dsimp only; rw [hopen, ← hopen]; rfl
    | some p => dsimp only; rw [hstop, ← hstop]; rfl

theorem readDelimited_eq (d : Delimiter) (b : TreeBuilder) (u s : List Char) :
    ∃ seg rest, d.opening ++ s = seg.chars ++ rest ∧ seg.chars ≠ [] ∧
      cut (d.opening ++ s) = seg :: cut rest ∧
      readDelimited (u ++ (d.opening ++ s)) b (byteLength u) =
        .ok (addSegment b (byteLength u) seg, byteLength u + byteLength seg.chars) := by
  have hcut := cut_opening d s
  have hfinds := finds_terminator? d s
  have hopening : byteLength d.opening = 2 := by cases d <;> rfl
  have hread := readDelimited_of_behind (behind_opening d u s) d b fun e he => by
    have hlow : e.toNat ≤ 127 := by
      cases d <;> obtain rfl := (List.cons.inj (List.cons.inj he).2).1 <;> decide
    have hat : OccursAt (u ++ (d.opening ++ s)) (byteLength u + 1) (e :: s) :=
      ⟨u ++ ['{'], [], by simp [he], byteLength_append u ['{']⟩
    obtain ⟨b', hb', hsame, _⟩ := byteAt_of_occursAt hat
    rw [hb', hsame hlow]
  cases hfound : terminator? d s with
  | none =>
    rw [hfound] at hcut hread
    have hchars : d.opening ++ s = (d.segment s false).chars := by
      rw [chars_segment]
      simp
    refine ⟨d.segment s false, [], by simpa using hchars, ?_, by rw [hcut, cut], ?_⟩
    · cases d <;> simp [Delimiter.segment, Segment.chars]
    · exact hread
  | some p =>
    obtain ⟨body, rest⟩ := p
    rw [hfound] at hcut hfinds hread
    refine ⟨d.segment body true, rest, ?_, ?_, hcut, ?_⟩
    · rw [chars_segment, hfinds.1.1]
      simp
    · cases d <;> simp [Delimiter.segment, Segment.chars]
    · exact hread

/-- One round of the reader: the text in front of the next delimiter, then what that opens. -/
theorem readFrom_step (u : List Char) (hs : s ≠ []) :
    readFrom (u ++ s) (rounds + 1) b (byteLength u) =
      if (textRun s).2 = [] then .ok (pastText b (byteLength u) s)
      else readDelimited (u ++ s) (pastText b (byteLength u) s)
          (byteLength u + byteLength (textRun s).1) >>= fun p =>
        readFrom (u ++ s) rounds p.1 p.2 := by
  have hlt : byteLength u < byteLength (u ++ s) := by
    have hpos := List.length_pos_iff.2 hs
    have hle := length_le_byteLength s
    rw [byteLength_append]
    omega
  obtain ⟨hjoin, _, _⟩ := textRun_spec s
  have hdelimiter : findDelimiter (bytes (u ++ s)) (byteLength u) = _ :=
    findDelimiter_eq (s := s) (by rw [bytes_append, ← length_bytes]; exact List.drop_left)
  have hat : OccursAt (u ++ s) (byteLength u) (textRun s).1 :=
    ⟨u, (textRun s).2, by rw [List.append_assoc, ← hjoin], rfl⟩
  have hcontent : addContent (u ++ s) b (byteLength u)
      (byteLength u + byteLength (textRun s).1) = .ok (pastText b (byteLength u) s) :=
    addContent_eq hat
  rw [readFrom, if_pos hlt, hdelimiter]
  by_cases hend : (textRun s).2 = []
  · have hwhole : byteLength (u ++ s) = byteLength u + byteLength (textRun s).1 := by
      rw [byteLength_append]
      conv => lhs; rw [hjoin, hend, List.append_nil]
    rw [if_pos hend, if_pos hend]
    change addContent (u ++ s) b (byteLength u) (byteLength (u ++ s)) = _
    rw [hwhole, hcontent]
  · rw [if_neg hend, if_neg hend]
    change (addContent (u ++ s) b (byteLength u) (byteLength u + byteLength (textRun s).1) >>= _) = _
    rw [hcontent]
    rfl

theorem readFrom_eq (u s : List Char) (hrounds : s.length ≤ rounds) :
    readFrom (u ++ s) (rounds + 1) b (byteLength u) =
      .ok (addSegments b (byteLength u) (cut s)) := by
  induction rounds generalizing u s b with
  | zero =>
    obtain rfl : s = [] := List.length_eq_zero_iff.1 (Nat.le_zero.1 hrounds)
    rw [readFrom, if_neg (by simp), cut]
    rfl
  | succ rounds ih =>
    by_cases hs : s = []
    · subst hs
      rw [readFrom, if_neg (by simp), cut]
      rfl
    · obtain ⟨hjoin, _, hnext⟩ := textRun_spec s
      -- the rest behind the next delimiter is shorter, whatever the delimiter opens
      rw [readFrom_step u hs, addSegments_textRun]
      by_cases hend : (textRun s).2 = []
      · rw [if_pos hend, hend, cut]
        rfl
      · obtain ⟨d, behind, hbehind⟩ := opens_iff.1 (hnext.resolve_left hend)
        obtain ⟨seg, rest, hseg, hne, hcut, hread⟩ :=
          readDelimited_eq d (pastText b (byteLength u) s) (u ++ (textRun s).1) behind
        rw [List.append_assoc, byteLength_append, hbehind, ← hjoin] at hread
        have hsplit : s = (textRun s).1 ++ (seg.chars ++ rest) := by
          rw [← hseg, hbehind]
          exact hjoin
        have hshorter : rest.length ≤ rounds := by
          have hlength := congrArg List.length hsplit
          have hpos := List.length_pos_iff.2 hne
          rw [List.length_append, List.length_append] at hlength
          omega
        have hrest := ih
          (b := addSegment (pastText b (byteLength u) s) (byteLength (u ++ (textRun s).1)) seg)
          (u ++ (textRun s).1 ++ seg.chars) rest hshorter
        rw [List.append_assoc, List.append_assoc, ← hsplit, byteLength_append (u ++ (textRun s).1),
          byteLength_append u] at hrest
        rw [if_neg hend, hread, ← hbehind, hcut, addSegments]
        exact hrest

end Segments

/-- No check of the reader of bytes fails, and it gives the tree of the source. -/
theorem parse_eq (src : Source) : parse src = .ok (Twig.parse src) := by
  have hread := readFrom_eq (b := (TreeBuilder.new src).openNode "template" true 0) [] src
    (length_le_byteLength src)
  rw [List.nil_append, byteLength_nil] at hread
  rw [parse, hread]
  rfl

end Bytewise

/-- From any source whatever, the bytes can be read without a fault, and the nodes lie in the source
and in each other. -/
theorem parse_safe (src : Source) :
    Bytewise.parse src = .ok (parse src) ∧
      0 < (parse src).size ∧ (parse src).root = 0 ∧ (parse src).kind 0 = "template" ∧
      (parse src).parent? 0 = none ∧ ((parse src).node 0).startByte = 0 ∧
      ((parse src).node 0).endByte = byteLength src ∧ (parse src).Covers src := by
  obtain ⟨done, hfits, hroot, hsize, hlaid⟩ := parse_placed src
  have hnode := (laid_iff.1 hlaid).1
  refine ⟨Bytewise.parse_eq src, ?_, hroot, ?_, SyntaxTree.parent?_of_laid hlaid, ?_, ?_, ?_⟩
  · rw [hsize, Shape.size]
    omega
  · rw [SyntaxTree.kind, hnode]
    rfl
  · rw [hnode]
    rfl
  · rw [hnode]
    rfl
  · exact SyntaxTree.covers_of_laid hsize hlaid hfits fun _ h => h.1

end ProjectIndex.Twig
