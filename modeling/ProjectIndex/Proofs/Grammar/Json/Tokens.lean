import Mathlib.Data.Bool.AllAny
import Mathlib.Data.List.Basic
import ProjectIndex.Proofs.Grammar.Json.Document

/-!
The tokens of a document. Each stands where the text of its value says, and behind a number comes
nothing that could belong to it, so the reader finds them all.
-/
namespace ProjectIndex.Json

open ProjectIndex.Text

mutual

def Value.tokens (before : List Char) : Value → List Shape
  | .string s => [s.shape before]
  | .number n => [leafAt "number" true before n.chars]
  | .word w => [leafAt w.kind true before w.chars]
  | .array items =>
    let inside := before ++ ['[']
    leafAt "[" false before ['['] ::
      (items.tokens inside ++ [leafAt "]" false (inside ++ items.chars) [']']])
  | .object members =>
    let inside := before ++ ['\x7b']
    leafAt "\x7b" false before ['\x7b'] ::
      (members.tokens inside ++ [leafAt "\x7d" false (inside ++ members.chars) ['\x7d']])

def Items.tokens (before : List Char) : Items → List Shape
  | .nil _ => []
  | .cons gap value after rest =>
    let first := before ++ gap.chars
    let behind := behindValue first value after
    value.tokens first ++ (commaShapes behind rest.comma ++ rest.tokens (behind ++ rest.comma))

def Members.tokens (before : List Char) : Members → List Shape
  | .nil _ => []
  | .cons gap name beforeColon afterColon value after rest =>
    let start := before ++ gap.chars
    let colon := start ++ name.text.literal.text ++ beforeColon.chars
    let first := beforeValue start name beforeColon afterColon
    let behind := behindValue first value after
    name.text.shape start :: leafAt ":" false colon [':'] ::
      (value.tokens first ++ (commaShapes behind rest.comma ++ rest.tokens (behind ++ rest.comma)))

end

def cursor (before rest : List Char) : Cursor := ⟨byteLength before, rest⟩

section Cursors

variable {before x rest : List Char} {c : Char}

theorem advance_length (before x rest : List Char) :
    (cursor before (x ++ rest)).advance x.length = cursor (before ++ x) rest := by
  rw [Cursor.advance, cursor, cursor, List.take_left, List.drop_left, byteLength_append]

theorem accept?_word (before rest : List Char) (word : String) :
    (cursor before (word.toList ++ rest)).accept? word =
      some (cursor (before ++ word.toList) rest) := by
  have hstarts : (cursor before (word.toList ++ rest)).startsWith word = true :=
    List.isPrefixOf_iff_prefix.2 (List.prefix_append ..)
  have hlength : word.length = word.toList.length := (String.length_toList ..).symm
  rw [Cursor.accept?, if_pos hstarts, hlength, advance_length]

theorem accept?_of_ne {word : String} {first : Char} {more : List Char}
    (hword : word.toList = first :: more) (h : ∀ c ∈ rest.head?, c ≠ first) (before : List Char) :
    (cursor before rest).accept? word = none := by
  have hno : (cursor before rest).startsWith word = false := by
    rw [Cursor.startsWith, cursor, hword]
    cases rest with
    | nil => rfl
    | cons c rest =>
      have hne : c ≠ first := h c rfl
      rw [List.isPrefixOf, beq_false_of_ne hne.symm, Bool.false_and]
  rw [Cursor.accept?, hno]
  rfl

theorem skipWhile_eq {class_ : Char → Bool} (hx : ∀ c ∈ x, class_ c = true)
    (hrest : ∀ c ∈ rest.head?, class_ c = false) (before : List Char) :
    (cursor before (x ++ rest)).skipWhile class_ = cursor (before ++ x) rest := by
  have htake : rest.takeWhile class_ = [] := by
    cases rest with
    | nil => rfl
    | cons c rest => rw [List.takeWhile_cons_of_neg (by rw [hrest c rfl]; exact Bool.false_ne_true)]
  have hdrop : rest.dropWhile class_ = rest := by
    cases rest with
    | nil => rfl
    | cons c rest => rw [List.dropWhile_cons_of_neg (by rw [hrest c rfl]; exact Bool.false_ne_true)]
  rw [Cursor.skipWhile, cursor, cursor, List.takeWhile_append_of_pos hx, htake, List.append_nil,
    List.dropWhile_append_of_pos hx, hdrop, byteLength_append]

theorem skipWhile_append {class_ : Char → Bool} (hx : ∀ c ∈ x, class_ c = true)
    (before rest : List Char) :
    (cursor before (x ++ rest)).skipWhile class_ =
      (cursor (before ++ x) rest).skipWhile class_ := by
  rw [Cursor.skipWhile, Cursor.skipWhile, cursor, cursor, List.takeWhile_append_of_pos hx,
    List.dropWhile_append_of_pos hx, byteLength_append, byteLength_append, Nat.add_assoc]

end Cursors

section Stops

def isStop (c : Char) : Bool := isBlank c || c == ',' || c == ']' || c == '\x7d'

/-- Whether a text cannot go on with a number. -/
def Stops (rest : List Char) : Prop := ∀ c ∈ rest.head?, isStop c = true

variable {x rest : List Char} {c : Char}

theorem Stops.append (hx : ∀ c ∈ x, isStop c = true) (h : Stops rest) : Stops (x ++ rest) := by
  cases x with
  | nil => exact h
  | cons c x =>
    intro d hd
    obtain rfl := Option.some.inj hd
    exact hx c (List.mem_cons_self ..)

theorem Gap.stops (gap : Gap) (h : Stops rest) : Stops (gap.chars ++ rest) := by
  refine Stops.append (fun c hc => ?_) h
  rw [isStop, gap.blank c hc]
  rfl

theorem Stops.ne (h : Stops rest) {d : Char} (hd : isStop d = false) : ∀ c ∈ rest.head?, c ≠ d := by
  rintro c hc rfl
  rw [h c hc] at hd
  cases hd

theorem isBlank_of_isDigit (h : c.isDigit = true) : isBlank c = false := by
  simp only [Char.isDigit, Bool.and_eq_true, decide_eq_true_eq, UInt32.le_iff_toNat_le] at h
  change 48 ≤ c.toNat ∧ c.toNat ≤ 57 at h
  simp only [isBlank, Bool.or_eq_false_iff, Bool.and_eq_false_iff, decide_eq_false_iff_not,
    beq_eq_false_iff_ne]
  omega

theorem isDigit_of_isStop (h : isStop c = true) : c.isDigit = false := by
  by_contra hdigit
  rw [Bool.not_eq_false] at hdigit
  rw [isStop, isBlank_of_isDigit hdigit] at h
  simp only [Bool.false_or, Bool.or_eq_true, beq_iff_eq] at h
  rcases h with (rfl | rfl) | rfl <;> cases hdigit

end Stops

section Strings

variable {parts : List LiteralPart} {rest : List Char}

theorem exists_of_isReadable_escape {e : List Char} (h : isReadable (.escape e) = true) :
    ∃ c, e = ['\\', c] := by
  unfold isReadable at h
  split at h
  · next heq => cases heq
  · next c heq => exact ⟨c, LiteralPart.escape.inj heq⟩
  · cases h

theorem head?_behind_plain {s : List Char} (hread : ∀ part ∈ parts, isReadable part = true)
    (hmaximal : (LiteralPart.plain s :: parts).IsChain
      fun x y => ¬ (x.isPlain = true ∧ y.isPlain = true)) :
    ∀ c ∈ (parts.flatMap LiteralPart.chars ++ '"' :: rest).head?, isPlainChar c = false := by
  intro c hc
  cases parts with
  | nil =>
    obtain rfl := Option.some.inj hc
    rfl
  | cons part parts =>
    cases part with
    | plain p => exact absurd ⟨rfl, rfl⟩ (List.isChain_cons_cons.1 hmaximal).1
    | escape e =>
      obtain ⟨d, rfl⟩ := exists_of_isReadable_escape (hread _ (List.mem_cons_self ..))
      obtain rfl := Option.some.inj hc
      rfl

theorem stringParts_quote (n : Nat) (before rest : List Char) :
    stringParts (n + 1) (cursor before ('"' :: rest)) =
      some ([.token "\"" (byteLength before) (byteLength (before ++ ['"']))],
        cursor (before ++ ['"']) rest) := by
  have hstep : (cursor before ('"' :: rest)).advance 1 = cursor (before ++ ['"']) rest :=
    advance_length before ['"'] rest
  change some ([Shape.token "\"" (byteLength before) ((cursor before ('"' :: rest)).advance 1).pos],
    (cursor before ('"' :: rest)).advance 1) = _
  rw [hstep]
  rfl

def withPart (before : List Char) (part : LiteralPart) (r : List Shape × Cursor) :
    List Shape × Cursor :=
  (.named (part.kind "string_content") (byteLength before) (byteLength (before ++ part.chars)) :: r.1,
    r.2)

theorem stringParts_escape (n : Nat) (before : List Char) (c : Char) (rest : List Char) :
    stringParts (n + 1) (cursor before ('\\' :: c :: rest)) =
      (stringParts n (cursor (before ++ ['\\', c]) rest)).map
        (withPart before (.escape ['\\', c])) := by
  have hstep : (cursor before ('\\' :: c :: rest)).advance 2 = cursor (before ++ ['\\', c]) rest :=
    advance_length before ['\\', c] rest
  change (stringParts n ((cursor before ('\\' :: c :: rest)).advance 2)).map (fun r =>
    (Shape.named "escape_sequence" (byteLength before)
      ((cursor before ('\\' :: c :: rest)).advance 2).pos :: r.1, r.2)) = _
  rw [hstep]
  rfl

theorem stringParts_plain (n : Nat) (before : List Char) {s : List Char} (hs : s ≠ [])
    (hplain : ∀ c ∈ s, isPlainChar c = true) (hrest : ∀ c ∈ rest.head?, isPlainChar c = false) :
    stringParts (n + 1) (cursor before (s ++ rest)) =
      (stringParts n (cursor (before ++ s) rest)).map (withPart before (.plain s)) := by
  have hskip := skipWhile_eq hplain hrest before
  cases s with
  | nil => exact absurd rfl hs
  | cons c s =>
    have hc := hplain c (List.mem_cons_self ..)
    simp only [isPlainChar, Bool.and_eq_true, bne_iff_ne] at hc
    obtain ⟨⟨hquote, hslash⟩, hline⟩ := hc
    rw [stringParts]
    split
    · next heq => cases heq
    · next heq => exact absurd (List.cons.inj heq).1 hquote
    · next heq => exact absurd (List.cons.inj heq).1 hline
    · next heq => exact absurd (List.cons.inj heq).1 hslash
    · change (stringParts n ((cursor before (c :: s ++ rest)).skipWhile isPlainChar)).map (fun r =>
        (Shape.named "string_content" (byteLength before)
          ((cursor before (c :: s ++ rest)).skipWhile isPlainChar).pos :: r.1, r.2)) = _
      rw [hskip]
      rfl

theorem stringParts_eq (hne : ∀ part ∈ parts, part.chars ≠ [])
    (hmaximal : parts.IsChain fun x y => ¬ (x.isPlain = true ∧ y.isPlain = true))
    (hread : ∀ part ∈ parts, isReadable part = true) (before rest : List Char) {fuel : Nat}
    (hfuel : parts.length < fuel) :
    let last := before ++ parts.flatMap LiteralPart.chars
    stringParts fuel (cursor before (parts.flatMap LiteralPart.chars ++ '"' :: rest)) =
      some (LiteralPart.shapes "string_content" (byteLength before) parts ++
        [.token "\"" (byteLength last) (byteLength (last ++ ['"']))],
        cursor (last ++ ['"']) rest) := by
  induction parts generalizing before fuel with
  | nil =>
    obtain ⟨n, rfl⟩ := Nat.exists_eq_add_one_of_ne_zero (Nat.ne_zero_of_lt hfuel)
    rw [List.flatMap_nil, List.append_nil]
    exact stringParts_quote n before rest
  | cons part parts ih =>
    obtain ⟨n, rfl⟩ := Nat.exists_eq_add_one_of_ne_zero (Nat.ne_zero_of_lt hfuel)
    obtain ⟨hpart, hneParts⟩ := List.forall_mem_cons.1 hne
    obtain ⟨hreadPart, hreadParts⟩ := List.forall_mem_cons.1 hread
    have hrest := ih hneParts hmaximal.tail hreadParts (before ++ part.chars)
      (Nat.lt_of_succ_lt_succ hfuel)
    -- Plain text is read as far as it goes, and what follows it is no plain text.
    have hstep : stringParts (n + 1) (cursor before
        (part.chars ++ (parts.flatMap LiteralPart.chars ++ '"' :: rest))) =
      (stringParts n (cursor (before ++ part.chars)
        (parts.flatMap LiteralPart.chars ++ '"' :: rest))).map (withPart before part) := by
      cases part with
      | plain s =>
        have hbehind : ∀ c ∈ (parts.flatMap LiteralPart.chars ++ '"' :: rest).head?,
            isPlainChar c = false := head?_behind_plain hreadParts hmaximal
        exact stringParts_plain n before hpart (List.all_eq_true.1 hreadPart) hbehind
      | escape e =>
        obtain ⟨c, rfl⟩ := exists_of_isReadable_escape hreadPart
        exact stringParts_escape n before c _
    rw [List.flatMap_cons, List.append_assoc, hstep, hrest, LiteralPart.shapes, ← byteLength_append,
      ← List.append_assoc]
    rfl

theorem spanning_string (s : StringText) (before : List Char) :
    let first := before ++ ['"']
    let last := first ++ s.content.chars
    Shape.spanning "string" (.token "\"" (byteLength before) (byteLength first) ::
      (LiteralPart.shapes "string_content" (byteLength first) s.content.parts ++
        [.token "\"" (byteLength last) (byteLength (last ++ ['"']))])) = s.shape before := by
  intro first last
  have hquote : '"'.utf8Size = 1 := rfl
  have hfirst : byteLength first = byteLength before + 1 := byteLength_append before ['"']
  have hlast : byteLength last = byteLength before + 1 + byteLength s.content.chars := by
    rw [byteLength_append, hfirst]
  have hstop : byteLength (last ++ ['"']) = byteLength last + 1 := byteLength_append last ['"']
  have hwhole : byteLength s.literal.text = 1 + byteLength s.content.chars + 1 := by
    have htext : s.literal.text = '"' :: (s.content.chars ++ ['"']) := rfl
    rw [htext, byteLength_cons, byteLength_append, byteLength_cons, byteLength_nil, hquote]
    omega
  have hsum : byteLength before + (1 + byteLength s.content.chars + 1) =
      byteLength before + 1 + byteLength s.content.chars + 1 := by omega
  rw [Shape.spanning_concat, StringText.shape, Literal.shape, hwhole, hsum]
  change Shape.node "string" true false (byteLength before) (byteLength (last ++ ['"'])) _ = _
  rw [hstop, hlast, hfirst]
  rfl

theorem string?_eq (s : StringText) (before rest : List Char) :
    string? (cursor before (s.literal.text ++ rest)) =
      some (s.shape before, cursor (before ++ s.literal.text) rest) := by
  let inside := s.content.parts.flatMap LiteralPart.chars
  have htext : s.literal.text = '"' :: (inside ++ ['"']) := rfl
  have hquote : (cursor before (s.literal.text ++ rest)).advance 1 =
      cursor (before ++ ['"']) (inside ++ '"' :: rest) := by
    have hstep := advance_length before ['"'] (inside ++ '"' :: rest)
    rw [← hstep, htext]
    simp
  have hfuel : s.content.parts.length < (inside ++ '"' :: rest).length + 1 := by
    have hlength : s.content.parts.length ≤ inside.length :=
      length_literalParts_le s.content.nonempty
    rw [List.length_append]
    omega
  have hparts := stringParts_eq s.content.nonempty s.content.maximal s.readable
    (before ++ ['"']) rest hfuel
  have hshape := spanning_string s before
  have hbehind : before ++ ['"'] ++ inside ++ ['"'] = before ++ s.literal.text := by
    rw [htext]
    simp
  unfold string?
  dsimp only
  rw [hquote]
  change (stringParts ((inside ++ '"' :: rest).length + 1)
    (cursor (before ++ ['"']) (inside ++ '"' :: rest))).map _ = _
  rw [hparts, ← hshape, ← hbehind]
  rfl

end Strings

section Numbers

variable {before rest digits : List Char} {c : Char}

theorem isDigit_of_mem_head? (h : IsRun Char.isDigit digits) :
    ∀ c ∈ (digits ++ rest).head?, c.isDigit = true := by
  intro c hc
  rw [List.head?_append_of_ne_nil _ h.1] at hc
  exact h.2 c (List.mem_of_head? hc)

def signEnd (c : Cursor) : Cursor := (c.accept? "-").getD c

def wholeEnd? (c : Cursor) : Option Cursor := (c.accept? "0").or (digits? c)

def fractionEnd (c : Cursor) : Cursor :=
  match c.accept? "." with
  | some d => d.skipWhile Char.isDigit
  | none => c

def exponentEnd (c : Cursor) : Cursor :=
  match (c.accept? "e").or (c.accept? "E") with
  | some d => (digits? (signEnd d)).getD c
  | none => c

theorem number?_eq_map (c : Cursor) : number? c = (wholeEnd? (signEnd c)).map fun whole =>
    (.named "number" c.pos (exponentEnd (fractionEnd whole)).pos,
      exponentEnd (fractionEnd whole)) := by
  unfold number? wholeEnd? signEnd
  dsimp only
  generalize (c.accept? "-").getD c = signed
  cases signed.accept? "0" with
  | some d => rfl
  | none =>
    rw [Option.none_or]
    cases digits? signed with
    | none => rfl
    | some d => rfl

theorem signEnd_eq (negative : Bool) (before : List Char) (h : ∀ c ∈ rest.head?, c ≠ '-') :
    signEnd (cursor before (minus negative ++ rest)) = cursor (before ++ minus negative) rest := by
  unfold signEnd
  cases negative with
  | false =>
    have hnone : (cursor before rest).accept? "-" = none := accept?_of_ne rfl h before
    rw [minus, if_neg Bool.false_ne_true, List.nil_append, List.append_nil, hnone]
    rfl
  | true =>
    have haccept := accept?_word before rest "-"
    rw [minus, if_pos rfl]
    change ((cursor before ("-".toList ++ rest)).accept? "-").getD _ = _
    rw [haccept]
    rfl

theorem digits?_eq (h : IsRun Char.isDigit digits) (hrest : ∀ c ∈ rest.head?, c.isDigit = false)
    (before : List Char) :
    digits? (cursor before (digits ++ rest)) = some (cursor (before ++ digits) rest) := by
  have hpos : byteLength digits ≠ 0 := by
    obtain ⟨hne, _⟩ := h
    cases digits with
    | nil => exact absurd rfl hne
    | cons c digits =>
      have hc := c.utf8Size_pos
      rw [byteLength_cons]
      omega
  have hmoved : ¬ byteLength (before ++ digits) = byteLength before := by
    rw [byteLength_append]
    omega
  rw [digits?, skipWhile_eq h.2 hrest]
  exact if_neg hmoved

theorem wholeEnd?_eq {whole : List Char}
    (h : whole = ['0'] ∨ IsRun Char.isDigit whole ∧ whole.head? ≠ some '0')
    (hrest : ∀ c ∈ rest.head?, c.isDigit = false) (before : List Char) :
    wholeEnd? (cursor before (whole ++ rest)) = some (cursor (before ++ whole) rest) := by
  unfold wholeEnd?
  rcases h with rfl | ⟨hrun, hzero⟩
  · have haccept : (cursor before (['0'] ++ rest)).accept? "0" =
        some (cursor (before ++ ['0']) rest) := accept?_word before rest "0"
    rw [haccept]
    rfl
  · have hnone : (cursor before (whole ++ rest)).accept? "0" = none := by
      refine accept?_of_ne rfl (fun c hc => ?_) before
      rw [List.head?_append_of_ne_nil _ hrun.1] at hc
      rintro rfl
      exact hzero hc
    rw [hnone, Option.none_or]
    exact digits?_eq hrun hrest before

theorem fractionEnd_eq {fraction : Option (List Char)}
    (h : ∀ digits ∈ fraction, IsRun Char.isDigit digits)
    (hrest : ∀ c ∈ rest.head?, c.isDigit = false ∧ c ≠ '.') (before : List Char) :
    let chars := (fraction.map ('.' :: ·)).getD []
    fractionEnd (cursor before (chars ++ rest)) = cursor (before ++ chars) rest := by
  intro chars
  unfold fractionEnd
  cases fraction with
  | none =>
    have hnone : (cursor before rest).accept? "." = none :=
      accept?_of_ne rfl (fun c hc => (hrest c hc).2) before
    change (match (cursor before rest).accept? "." with
      | some d => d.skipWhile Char.isDigit
      | none => cursor before rest) = cursor (before ++ []) rest
    rw [hnone, List.append_nil]
  | some digits =>
    have haccept : (cursor before ('.' :: (digits ++ rest))).accept? "." =
        some (cursor (before ++ ['.']) (digits ++ rest)) := accept?_word before (digits ++ rest) "."
    have hskip := skipWhile_eq (h digits rfl).2 (fun c hc => (hrest c hc).1) (before ++ ['.'])
    have hchars : before ++ ['.'] ++ digits = before ++ chars := by
      rw [List.append_assoc]
      rfl
    change (match (cursor before ('.' :: (digits ++ rest))).accept? "." with
      | some d => d.skipWhile Char.isDigit
      | none => cursor before ('.' :: (digits ++ rest))) = cursor (before ++ chars) rest
    rw [haccept, ← hchars]
    exact hskip

theorem exponentEnd_eq (exponent : Option Exponent) (hrest : Stops rest) (before : List Char) :
    let chars := (exponent.map Exponent.chars).getD []
    exponentEnd (cursor before (chars ++ rest)) = cursor (before ++ chars) rest := by
  intro chars
  let fraction := cursor before (chars ++ rest)
  change (match (fraction.accept? "e").or (fraction.accept? "E") with
    | some d => (digits? (signEnd d)).getD fraction
    | none => fraction) = _
  cases exponent with
  | none =>
    have hlower : fraction.accept? "e" = none :=
      accept?_of_ne rfl (hrest.ne (by decide)) before
    have hupper : fraction.accept? "E" = none :=
      accept?_of_ne rfl (hrest.ne (by decide)) before
    have hchars : before ++ chars = before := List.append_nil before
    rw [hlower, hupper, hchars]
    rfl
  | some e =>
    have hafter : ∀ c ∈ (e.digits ++ rest).head?, c ≠ '-' := by
      rintro c hc rfl
      exact absurd (isDigit_of_mem_head? e.isRun _ hc) (by decide)
    have hdigits : ∀ c ∈ rest.head?, c.isDigit = false := fun c hc => isDigit_of_isStop (hrest c hc)
    have hmark : (fraction.accept? "e").or (fraction.accept? "E") =
        some (cursor (before ++ [e.mark]) (minus e.negative ++ (e.digits ++ rest))) := by
      have htext : chars ++ rest = e.mark :: (minus e.negative ++ (e.digits ++ rest)) := by
        change e.mark :: (minus e.negative ++ e.digits) ++ rest = _
        simp
      have hfraction : fraction =
          cursor before (e.mark :: (minus e.negative ++ (e.digits ++ rest))) := by
        rw [← htext]
      rw [hfraction]
      -- The small letter is tried first, so a capital one is read only where that has failed.
      rcases e.isMark with hm | hm
      · have haccept := accept?_word before (minus e.negative ++ (e.digits ++ rest)) "e"
        have hlower : (cursor before ('e' :: (minus e.negative ++ (e.digits ++ rest)))).accept? "e" =
            some (cursor (before ++ ['e']) (minus e.negative ++ (e.digits ++ rest))) := haccept
        rw [hm, hlower]
        rfl
      · have haccept := accept?_word before (minus e.negative ++ (e.digits ++ rest)) "E"
        have hnone : (cursor before ('E' :: (minus e.negative ++ (e.digits ++ rest)))).accept? "e" =
            none := by
          refine accept?_of_ne rfl ?_ before
          rintro c hc rfl
          cases hc
        rw [hm, hnone, Option.none_or]
        exact haccept
    have hchars : before ++ [e.mark] ++ minus e.negative ++ e.digits = before ++ chars := by
      change _ = before ++ e.mark :: (minus e.negative ++ e.digits)
      simp
    rw [hmark]
    dsimp only
    rw [signEnd_eq _ _ hafter, digits?_eq e.isRun hdigits, hchars]
    rfl

theorem head?_exponentChars (n : Number) (hrest : Stops rest) :
    ∀ c ∈ (n.exponentChars ++ rest).head?, c.isDigit = false ∧ c ≠ '.' := by
  intro c hc
  rw [Number.exponentChars] at hc
  cases he : n.exponent with
  | none =>
    rw [he] at hc
    exact ⟨isDigit_of_isStop (hrest c hc), hrest.ne (by decide) c hc⟩
  | some e =>
    rw [he] at hc
    obtain rfl := Option.some.inj hc
    rcases e.isMark with hm | hm <;> rw [hm] <;> decide

theorem head?_fractionChars (n : Number) (hrest : Stops rest) :
    ∀ c ∈ (n.fractionChars ++ (n.exponentChars ++ rest)).head?, c.isDigit = false := by
  intro c hc
  rw [Number.fractionChars] at hc
  cases hf : n.fraction with
  | none =>
    rw [hf] at hc
    exact (head?_exponentChars n hrest c hc).1
  | some digits =>
    rw [hf] at hc
    obtain rfl := Option.some.inj hc
    decide

theorem head?_whole (n : Number) : ∀ c ∈ (n.whole ++ rest).head?, c.isDigit = true := by
  rcases n.isWhole with hwhole | hwhole
  · intro c hc
    rw [hwhole] at hc
    obtain rfl := Option.some.inj hc
    decide
  · exact isDigit_of_mem_head? hwhole.1

theorem number?_eq (n : Number) (hrest : Stops rest) (before : List Char) :
    number? (cursor before (n.chars ++ rest)) =
      some (leafAt "number" true before n.chars, cursor (before ++ n.chars) rest) := by
  have hchars : n.chars ++ rest =
      minus n.negative ++ (n.whole ++ (n.fractionChars ++ (n.exponentChars ++ rest))) := by
    simp [Number.chars]
  have hno_minus : ∀ c ∈ (n.whole ++ (n.fractionChars ++ (n.exponentChars ++ rest))).head?,
      c ≠ '-' := by
    rintro c hc rfl
    exact absurd (head?_whole n _ hc) (by decide)
  have hwhole := wholeEnd?_eq n.isWhole (head?_fractionChars n hrest) (before ++ minus n.negative)
  have hfraction := fractionEnd_eq n.isFraction (head?_exponentChars n hrest)
    (before ++ minus n.negative ++ n.whole)
  have hexponent := exponentEnd_eq n.exponent hrest
    (before ++ minus n.negative ++ n.whole ++ n.fractionChars)
  have hlast : before ++ minus n.negative ++ n.whole ++ n.fractionChars ++ n.exponentChars =
      before ++ n.chars := by
    simp [Number.chars]
  have hend : exponentEnd (fractionEnd (cursor (before ++ minus n.negative ++ n.whole)
      (n.fractionChars ++ (n.exponentChars ++ rest)))) = cursor (before ++ n.chars) rest := by
    rw [← hlast]
    exact (congrArg exponentEnd hfraction).trans hexponent
  rw [number?_eq_map, hchars, signEnd_eq _ _ hno_minus, hwhole, Option.map_some, hend]
  rfl

end Numbers

section Tokens

variable {before x y rest : List Char} {c : Char} {t : Shape} {ts us : List Shape}

theorem token?_string (s : StringText) (before rest : List Char) :
    token? (cursor before (s.literal.text ++ rest)) =
      some (s.shape before, cursor (before ++ s.literal.text) rest) :=
  string?_eq s before rest

theorem head?_number (n : Number) : ∀ c ∈ n.chars.head?, (c == '-' || c.isDigit) = true := by
  intro c hc
  rw [Number.chars] at hc
  cases hnegative : n.negative with
  | true =>
    rw [hnegative] at hc
    obtain rfl := Option.some.inj hc
    rfl
  | false =>
    rw [hnegative] at hc
    rw [head?_whole n c hc, Bool.or_true]

theorem token?_number (n : Number) (hrest : Stops rest) (before : List Char) :
    token? (cursor before (n.chars ++ rest)) =
      some (leafAt "number" true before n.chars, cursor (before ++ n.chars) rest) := by
  have hread := number?_eq n hrest before
  have hhead := head?_number n
  cases hchars : n.chars with
  | nil => exact absurd hchars n.chars_ne_nil
  | cons c tail =>
    rw [hchars] at hread hhead
    have hnumber := hhead c rfl
    have hquote : (c == '"') = false := by
      refine beq_false_of_ne ?_
      rintro rfl
      cases hnumber
    rw [← hread, List.cons_append, token?, cursor]
    dsimp only
    rw [hquote, if_neg Bool.false_ne_true, hnumber, if_pos rfl]

theorem word?_self (w : Word) (before rest : List Char) :
    word? (cursor before (w.chars ++ rest)) w.kind =
      some (leafAt w.kind true before w.chars, cursor (before ++ w.chars) rest) := by
  have hword := accept?_word before rest w.kind
  rw [word?]
  change ((cursor before (w.kind.toList ++ rest)).accept? w.kind).map _ = _
  rw [hword]
  rfl

theorem word?_other {word : String} {first : Char} {more : List Char}
    (hword : word.toList = first :: more) (hx : ∀ c ∈ x.head?, c ≠ first) (before : List Char) :
    word? (cursor before x) word = none := by
  rw [word?, accept?_of_ne hword hx]
  rfl

theorem token?_letter (h : c ∈ ['t', 'f', 'n']) (before rest : List Char) :
    token? (cursor before (c :: rest)) = (word? (cursor before (c :: rest)) "true").or
      ((word? (cursor before (c :: rest)) "false").or (word? (cursor before (c :: rest)) "null")) := by
  have hnone : ∀ c ∈ ['t', 'f', 'n'], (c == '"') = false ∧ (c == '-' || c.isDigit) = false ∧
      (c == '/') = false ∧ "\x7b\x7d[]:,".toList.contains c = false :=
    List.all_iff_forall_prop.1 (by decide)
  obtain ⟨hquote, hnumber, hcomment, hmark⟩ := hnone c h
  rw [token?, cursor]
  dsimp only
  rw [hquote, hnumber, hcomment, hmark]
  rfl

theorem token?_word (w : Word) (before rest : List Char) :
    token? (cursor before (w.chars ++ rest)) =
      some (leafAt w.kind true before w.chars, cursor (before ++ w.chars) rest) := by
  have hself := word?_self w before rest
  have hother : ∀ {word : String} {first : Char} {more : List Char},
      word.toList = first :: more → (∀ c ∈ (w.chars ++ rest).head?, c ≠ first) →
      word? (cursor before (w.chars ++ rest)) word = none :=
    fun hword hx => word?_other hword hx before
  -- The three words are tried in turn; no two of them begin with the same letter.
  have hletter : token? (cursor before (w.chars ++ rest)) =
      (word? (cursor before (w.chars ++ rest)) "true").or
        ((word? (cursor before (w.chars ++ rest)) "false").or
          (word? (cursor before (w.chars ++ rest)) "null")) := by
    cases w with
    | yes => exact token?_letter (by decide) before (['r', 'u', 'e'] ++ rest)
    | no => exact token?_letter (by decide) before (['a', 'l', 's', 'e'] ++ rest)
    | null => exact token?_letter (by decide) before (['u', 'l', 'l'] ++ rest)
  rw [hletter]
  cases w with
  | yes =>
    change (word? _ Word.yes.kind).or _ = _
    rw [hself]
    rfl
  | no =>
    have htrue : word? (cursor before (Word.no.chars ++ rest)) "true" = none :=
      hother rfl (by rintro c hc rfl; cases hc)
    change (word? _ "true").or ((word? _ Word.no.kind).or _) = _
    rw [htrue, hself]
    rfl
  | null =>
    have htrue : word? (cursor before (Word.null.chars ++ rest)) "true" = none :=
      hother rfl (by rintro c hc rfl; cases hc)
    have hfalse : word? (cursor before (Word.null.chars ++ rest)) "false" = none :=
      hother rfl (by rintro c hc rfl; cases hc)
    change (word? _ "true").or ((word? _ "false").or (word? _ Word.null.kind)) = _
    rw [htrue, hfalse, hself]
    rfl

theorem token?_mark (hc : c ∈ "\x7b\x7d[]:,".toList) (before rest : List Char) :
    token? (cursor before (c :: rest)) =
      some (leafAt (String.singleton c) false before [c], cursor (before ++ [c]) rest) := by
  have hnone : ∀ c ∈ "\x7b\x7d[]:,".toList,
      (c == '"') = false ∧ (c == '-' || c.isDigit) = false ∧ (c == '/') = false :=
    List.all_iff_forall_prop.1 (by decide)
  obtain ⟨hquote, hnumber, hcomment⟩ := hnone c hc
  have haccept := accept?_word before rest (String.singleton c)
  have hmark : "\x7b\x7d[]:,".toList.contains c = true := List.contains_iff_mem.2 hc
  rw [token?, cursor]
  dsimp only
  rw [hquote, hnumber, hcomment, hmark]
  change Cursor.token? (cursor before (c :: rest)) (String.singleton c) = _
  have hlist : (String.singleton c).toList = [c] := String.toList_singleton ..
  rw [hlist] at haccept
  have hhere : (cursor before (c :: rest)).accept? (String.singleton c) =
      some (cursor (before ++ [c]) rest) := haccept
  rw [Cursor.token?, hhere]
  rfl

end Tokens

section Lexing

variable {before x y rest : List Char} {c : Char} {t : Shape} {ts us : List Shape}

/-- Whether the reader takes some tokens on its way over `x`. -/
def Lexes (before x rest : List Char) (ts : List Shape) : Prop :=
  ∀ fuel, (x ++ rest).length < fuel → ∃ fuel', rest.length < fuel' ∧
    tokens fuel false (cursor before (x ++ rest)) =
      (tokens fuel' false (cursor (before ++ x) rest)).map (ts ++ ·)

theorem tokens_succ (fuel : Nat) (c : Cursor) :
    tokens (fuel + 1) false c =
      if (c.skipWhile isBlank).rest.isEmpty then some []
      else (token? (c.skipWhile isBlank)).bind fun r =>
        (tokens fuel (r.1.kind == "number") r.2).map (r.1 :: ·) := by
  have hnone : (strayExponent? c).filter (fun _ => false) = none := by
    cases strayExponent? c <;> rfl
  rw [tokens, hnone]
  cases hread : token? (c.skipWhile isBlank) <;> simp only [hread] <;> rfl

theorem tokens_of_stops (h : Stops rest) (fuel : Nat) (after : Bool) (before : List Char) :
    tokens fuel after (cursor before rest) = tokens fuel false (cursor before rest) := by
  have hstray : strayExponent? (cursor before rest) = none := by
    unfold strayExponent?
    split
    · next e d tail heq =>
      have hrest : rest = e :: '+' :: d :: tail := heq
      have hstop := h e (by rw [hrest]; rfl)
      refine if_neg fun hmark => ?_
      simp only [Bool.and_eq_true, Bool.or_eq_true, beq_iff_eq] at hmark
      rcases hmark.1 with rfl | rfl <;> cases hstop
    · rfl
  cases fuel with
  | zero => rfl
  | succ fuel => rw [tokens, tokens, hstray, Option.filter_none, Option.filter_none]

theorem Lexes.append (hx : Lexes before x (y ++ rest) ts) (hy : Lexes (before ++ x) y rest us) :
    Lexes before (x ++ y) rest (ts ++ us) := by
  intro fuel hfuel
  rw [List.append_assoc] at hfuel
  obtain ⟨fuel', hfuel', hread⟩ := hx fuel hfuel
  obtain ⟨fuel'', hfuel'', hread'⟩ := hy fuel' hfuel'
  refine ⟨fuel'', hfuel'', ?_⟩
  rw [List.append_assoc, hread, hread', Option.map_map, ← List.append_assoc]
  congr 1
  funext ws
  exact (List.append_assoc ts us ws).symm

theorem map_nil_append (o : Option (List Shape)) : o.map ([] ++ ·) = o := by
  cases o <;> rfl

theorem lexes_nil (before rest : List Char) : Lexes before [] rest [] := by
  intro fuel hfuel
  refine ⟨fuel, hfuel, ?_⟩
  rw [List.append_nil, map_nil_append]
  rfl

theorem Gap.lexes (gap : Gap) (before rest : List Char) : Lexes before gap.chars rest [] := by
  intro fuel hfuel
  have hskip := skipWhile_append gap.blank before rest
  refine ⟨fuel, Nat.lt_of_le_of_lt ?_ hfuel, ?_⟩
  · rw [List.length_append]
    exact Nat.le_add_left ..
  · rw [map_nil_append]
    cases fuel with
    | zero => rfl
    | succ fuel => rw [tokens_succ, tokens_succ, hskip]

theorem lexes_token (hx : ∀ c ∈ x.head?, isBlank c = false) (hne : x ≠ [])
    (hread : token? (cursor before (x ++ rest)) = some (t, cursor (before ++ x) rest))
    (hstop : t.kind = "number" → Stops rest) : Lexes before x rest [t] := by
  intro fuel hfuel
  obtain ⟨n, rfl⟩ := Nat.exists_eq_add_one_of_ne_zero (Nat.ne_zero_of_lt hfuel)
  have hpos := List.length_pos_iff.2 hne
  have hskip : (cursor before (x ++ rest)).skipWhile isBlank = cursor before (x ++ rest) := by
    have hhead : ∀ c ∈ (x ++ rest).head?, isBlank c = false := by
      rw [List.head?_append_of_ne_nil _ hne]
      exact hx
    have hnone : (cursor before ([] ++ (x ++ rest))).skipWhile isBlank =
        cursor (before ++ []) (x ++ rest) := skipWhile_eq (fun c hc => by cases hc) hhead before
    rw [List.append_nil] at hnone
    exact hnone
  have hsome : (cursor before (x ++ rest)).rest.isEmpty = false := by
    cases x with
    | nil => exact absurd rfl hne
    | cons c x => rfl
  have hflag : tokens n (t.kind == "number") (cursor (before ++ x) rest) =
      tokens n false (cursor (before ++ x) rest) := by
    by_cases hkind : t.kind = "number"
    · exact tokens_of_stops (hstop hkind) n _ (before ++ x)
    · rw [beq_false_of_ne hkind]
  refine ⟨n, ?_, ?_⟩
  · rw [List.length_append] at hfuel
    omega
  · rw [tokens_succ, hskip, hsome, if_neg Bool.false_ne_true, hread]
    exact congrArg (Option.map (t :: ·)) hflag

theorem StringText.lexes (s : StringText) (before rest : List Char) :
    Lexes before s.literal.text rest [s.shape before] := by
  refine lexes_token ?_ (List.cons_ne_nil _ _) (token?_string s before rest) ?_
  · rintro c hc
    obtain rfl := Option.some.inj hc
    rfl
  · intro hkind
    exact absurd hkind (by decide : "string" ≠ "number")

theorem lexes_mark {kind : String} (hc : c ∈ "\x7b\x7d[]:,".toList)
    (hkind : kind = String.singleton c) (before rest : List Char) :
    Lexes before [c] rest [leafAt kind false before [c]] := by
  subst hkind
  have hmark : ∀ c ∈ "\x7b\x7d[]:,".toList,
      isBlank c = false ∧ String.singleton c ≠ "number" := List.all_iff_forall_prop.1 (by decide)
  refine lexes_token ?_ (List.cons_ne_nil _ _) (token?_mark hc before rest) ?_
  · intro d hd
    obtain rfl := Option.some.inj hd
    exact (hmark c hc).1
  · exact fun h => absurd h (hmark c hc).2

theorem Word.kind_ne_number (w : Word) : w.kind ≠ "number" := by
  cases w <;> decide

theorem lexes_comma (comma : List Char) (h : comma = [] ∨ comma = [',']) (before rest : List Char) :
    Lexes before comma rest (commaShapes before comma) := by
  rcases h with rfl | rfl
  · exact lexes_nil before rest
  · exact lexes_mark (by decide) rfl before rest

theorem Items.comma_cases (items : Items) : items.comma = [] ∨ items.comma = [','] := by
  cases items with
  | nil gap => exact .inl rfl
  | cons => exact .inr rfl

theorem Members.comma_cases (members : Members) : members.comma = [] ∨ members.comma = [','] := by
  cases members with
  | nil gap => exact .inl rfl
  | cons => exact .inr rfl

theorem Items.stops (items : Items) (h : Stops rest) :
    Stops (items.comma ++ items.chars ++ rest) := by
  cases items with
  | nil gap => exact gap.stops h
  | cons gap value after items =>
    intro c hc
    obtain rfl := Option.some.inj hc
    rfl

theorem Members.stops (members : Members) (h : Stops rest) :
    Stops (members.comma ++ members.chars ++ rest) := by
  cases members with
  | nil gap => exact gap.stops h
  | cons gap name beforeColon afterColon value after members =>
    intro c hc
    obtain rfl := Option.some.inj hc
    rfl

theorem stops_cons (hc : isStop c = true) (rest : List Char) : Stops (c :: rest) := by
  intro d hd
  obtain rfl := Option.some.inj hd
  exact hc

mutual

/-- The reader takes the tokens of a value on its way over it. -/
theorem Value.lexes : ∀ (v : Value) (before : List Char) {rest : List Char}, Stops rest →
    Lexes before v.chars rest (v.tokens before)
  | .string s, before, rest, _ => s.lexes before rest
  | .number n, before, rest, hrest => by
    refine lexes_token (fun c hc => ?_) n.chars_ne_nil (token?_number n hrest before) fun _ => hrest
    have hhead := head?_number n c hc
    rw [Bool.or_eq_true, beq_iff_eq] at hhead
    rcases hhead with rfl | hdigit
    · rfl
    · exact isBlank_of_isDigit hdigit
  | .word w, before, rest, _ => by
    refine lexes_token ?_ ?_ (token?_word w before rest) fun h =>
      absurd h w.kind_ne_number
    · rintro c hc
      cases w <;> exact Option.some.inj hc ▸ rfl
    · cases w <;> decide
  | .array items, before, rest, _ => by
    have hopen := lexes_mark (c := '[') (by decide) rfl before
      (items.chars ++ [']'] ++ rest)
    have hitems := items.lexes (before ++ ['[']) (stops_cons (c := ']') (by decide) rest)
    have hclose := lexes_mark (c := ']') (by decide) rfl (before ++ ['['] ++ items.chars) rest
    exact hopen.append (hitems.append hclose)
  | .object members, before, rest, _ => by
    have hopen := lexes_mark (c := '\x7b') (by decide) rfl before
      (members.chars ++ ['\x7d'] ++ rest)
    have hmembers := members.lexes (before ++ ['\x7b']) (stops_cons (c := '\x7d') (by decide) rest)
    have hclose := lexes_mark (c := '\x7d') (by decide) rfl (before ++ ['\x7b'] ++ members.chars) rest
    exact hopen.append (hmembers.append hclose)

theorem Items.lexes : ∀ (items : Items) (before : List Char) {rest : List Char}, Stops rest →
    Lexes before items.chars rest (items.tokens before)
  | .nil gap, before, rest, _ => gap.lexes before rest
  | .cons gap value after items, before, rest, hrest => by
    -- behind the value comes a comma or the closing bracket, so a number ends there
    have hbehind : Stops (after.chars ++ (items.comma ++ items.chars) ++ rest) := by
      rw [List.append_assoc]
      exact after.stops (items.stops hrest)
    have hvalue := value.lexes (before ++ gap.chars) hbehind
    have hitems := items.lexes (behindValue (before ++ gap.chars) value after ++ items.comma) hrest
    have hcomma := lexes_comma items.comma items.comma_cases
      (behindValue (before ++ gap.chars) value after) (items.chars ++ rest)
    exact (gap.lexes before _).append (hvalue.append ((after.lexes _ _).append (hcomma.append hitems)))

theorem Members.lexes : ∀ (members : Members) (before : List Char) {rest : List Char},
    Stops rest → Lexes before members.chars rest (members.tokens before)
  | .nil gap, before, rest, _ => gap.lexes before rest
  | .cons gap name beforeColon afterColon value after members, before, rest, hrest => by
    have hbehind : Stops (after.chars ++ (members.comma ++ members.chars) ++ rest) := by
      rw [List.append_assoc]
      exact after.stops (members.stops hrest)
    have hname := name.text.lexes (before ++ gap.chars) (beforeColon.chars ++ ([':'] ++
      (afterColon.chars ++ (value.chars ++ (after.chars ++ (members.comma ++ members.chars))))) ++ rest)
    have hcolon := lexes_mark (c := ':') (by decide) rfl
      (before ++ gap.chars ++ name.text.literal.text ++ beforeColon.chars)
      (afterColon.chars ++ (value.chars ++ (after.chars ++ (members.comma ++ members.chars))) ++ rest)
    have hvalue := value.lexes (beforeValue (before ++ gap.chars) name beforeColon afterColon) hbehind
    have hcomma := lexes_comma members.comma members.comma_cases
      (behindValue (beforeValue (before ++ gap.chars) name beforeColon afterColon) value after)
      (members.chars ++ rest)
    have hmembers := members.lexes (behindValue
      (beforeValue (before ++ gap.chars) name beforeColon afterColon) value after ++ members.comma) hrest
    exact (gap.lexes before _).append (hname.append ((beforeColon.lexes _ _).append (hcolon.append
      ((afterColon.lexes _ _).append (hvalue.append ((after.lexes _ _).append
        (hcomma.append hmembers)))))))

end

end Lexing

end ProjectIndex.Json
