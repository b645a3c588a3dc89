import Mathlib.Data.List.Basic
import ProjectIndex.Grammar.Twig.Tree
import ProjectIndex.Proofs.Grammar.Twig.Cuts
import ProjectIndex.Proofs.Text.Boundary

/-!
The reading of a source byte by byte. Inside quotes a backslash takes the byte behind it, so that a
reader may come to stand inside a character or behind the end of a statement. Here each byte that is
read and each text that is cut out is checked, and no check ever fails: from the bytes the readers
come to the same offsets as from the characters.
-/
namespace ProjectIndex.Twig

open ProjectIndex.Text

/-- What can go wrong: a byte behind the end, a text that does not begin and end between characters,
or a loop that does not end in time. -/
inductive Fault where
  | index
  | cut
  | endless

def bytes (s : List Char) : List Char :=
  s.flatMap fun c => (String.utf8EncodeChar c).map Char.ofUInt8

namespace Bytewise

def byteAt (bs : List Char) (i : Nat) : Except Fault Char :=
  match bs[i]? with
  | some b => .ok b
  | none => .error .index

def cutOut (src : Source) (start stop : Nat) : Except Fault (List Char) :=
  if start ≤ stop then
    match (dropBytes? start src).bind (takeBytes? (stop - start)) with
    | some s => .ok s
    | none => .error .cut
  else .error .cut

def findDelimiter (bs : List Char) (i : Nat) : Except Fault (Option Nat) :=
  if i + 1 < bs.length then do
    let b ← byteAt bs i
    let c ← byteAt bs (i + 1)
    if opens [b, c] then return some i else findDelimiter bs (i + 1)
  else return none
termination_by bs.length - i

def statementEnd (bs : List Char) (quote : Option Char) (i : Nat) : Except Fault (Option Nat) :=
  if i < bs.length then do
    let b ← byteAt bs i
    match quote with
    | some q =>
      if b == '\\' then statementEnd bs quote (i + 2)
      else statementEnd bs (if b == q then none else quote) (i + 1)
    | none =>
      if isQuote b then statementEnd bs (some b) (i + 1)
      else if b == '%' && bs[i + 1]? == some '}' then return some (i + 2)
      else statementEnd bs none (i + 1)
  else return none
termination_by bs.length - i

def stringEnd (bs : List Char) (quote : Char) (stop i : Nat) : Except Fault Nat :=
  if i < stop then do
    let b ← byteAt bs i
    if b == quote then return i
    else if b == '\\' then stringEnd bs quote stop (i + 2)
    else stringEnd bs quote stop (i + 1)
  else return i
termination_by stop - i

def wordEnd (bs : List Char) (stop i : Nat) : Except Fault Nat :=
  if i < stop then do
    let b ← byteAt bs i
    if inIdentifier b then wordEnd bs stop (i + 1) else return i
  else return i
termination_by stop - i

/-- The kind and the end of the token that begins with byte `b` at offset `i`. -/
def tokenAt (src : Source) (stop i : Nat) (b : Char) : Except Fault (TokenKind × Nat) :=
  if isQuote b then do
    let j ← stringEnd (bytes src) b stop (i + 1)
    return (.string, min (j + 1) stop)
  else if startsIdentifier b then do
    let j ← wordEnd (bytes src) stop i
    return (.identifier, j)
  else do
    let rest ← cutOut src i (byteLength src)
    return (.other, i + (rest.head?.map Char.utf8Size).getD 1)

def tokensFrom (src : Source) (stop : Nat) : Nat → Nat → Except Fault (List Token)
  | 0, _ => .error .endless
  | rounds + 1, i =>
    if i < stop then do
      let b ← byteAt (bytes src) i
      if isGap b then tokensFrom src stop rounds (i + 1)
      else do
        let (kind, j) ← tokenAt src stop i b
        let chars ← cutOut src i j
        let rest ← tokensFrom src stop rounds j
        return ⟨kind, i, chars⟩ :: rest
    else return []

def addContent (src : Source) (b : TreeBuilder) (start stop : Nat) : Except Fault TreeBuilder := do
  let chars ← cutOut src start stop
  return if chars.all isBlank then b else b.leaf "content" true start stop

def closeSimple (src : Source) (b : TreeBuilder) (kind : String) (closing : List Char)
    (start : Nat) : Except Fault (TreeBuilder × Nat) := do
  let rest ← cutOut src (start + 2) (byteLength src)
  match splitAtFirst closing rest with
  | some (body, _) =>
    let stop := start + 2 + byteLength body + 2
    return (b.leaf kind true start stop, stop)
  | none => return (addErrorLeaf b kind start (byteLength src), byteLength src)

def readStatement (src : Source) (b : TreeBuilder) (start : Nat) :
    Except Fault (TreeBuilder × Nat) := do
  match ← statementEnd (bytes src) none (start + 2) with
  | some stop =>
    if stop < 2 then throw .index
    let tokens ← tokensFrom src (stop - 2) (byteLength src + 1) (start + 2)
    return (addStatement b start stop tokens, stop)
  | none => return (addErrorLeaf b "tag" start (byteLength src), byteLength src)

def readDelimited (src : Source) (b : TreeBuilder) (start : Nat) :
    Except Fault (TreeBuilder × Nat) := do
  let c ← byteAt (bytes src) (start + 1)
  if c == '#' then closeSimple src b "comment" ['#', '}'] start
  else if c == '{' then closeSimple src b "output" ['}', '}'] start
  else readStatement src b start

def readFrom (src : Source) : Nat → TreeBuilder → Nat → Except Fault TreeBuilder
  | 0, _, _ => .error .endless
  | rounds + 1, b, pos =>
    if pos < byteLength src then do
      match ← findDelimiter (bytes src) pos with
      | none => addContent src b pos (byteLength src)
      | some start =>
        let b ← addContent src b pos start
        let (b, pos) ← readDelimited src b start
        readFrom src rounds b pos
    else return b

def parse (src : Source) : Except Fault SyntaxTree := do
  let b ← readFrom src (byteLength src + 1) ((TreeBuilder.new src).openNode "template" true 0) 0
  return ((closeBlocks b b.opened).close b.sourceLength).finish

section Bytes

variable {bs hs tail : List Char} {b c : Char} {s : List Char} {i stop : Nat}

theorem byteAt_of_drop (h : bs.drop i = b :: tail) :
    i < bs.length ∧ bs[i]? = some b ∧ byteAt bs i = .ok b ∧ bs.drop (i + 1) = tail := by
  have hget : bs[i]? = some b := by
    have hfirst := congrArg (·[0]?) h
    rw [List.getElem?_drop] at hfirst
    exact hfirst
  refine ⟨(List.getElem?_eq_some_iff.1 hget).1, hget, by rw [byteAt, hget], ?_⟩
  rw [← List.drop_drop, h]
  rfl

theorem utf8Size_low (hc : c.toNat ≤ 127) : c.utf8Size = 1 :=
  Char.utf8Size_eq_one_iff.2 (UInt32.le_iff_toNat_le.2 hc)

theorem bytes_low (hc : c.toNat ≤ 127) (s : List Char) : bytes (c :: s) = c :: bytes s := by
  rw [bytes, List.flatMap_cons, Quoting.toNat_eq_of_utf8EncodeChar hc]
  have hback : Char.ofUInt8 (UInt8.ofNat c.toNat) = c := by
    apply Char.toNat_inj.1
    exact UInt8.toNat_ofNat_of_lt' (Nat.lt_of_le_of_lt hc (by decide))
  rw [List.map_singleton, hback]
  rfl

theorem bytes_high (hc : 127 < c.toNat) (s : List Char) :
    ∃ hs, bytes (c :: s) = hs ++ bytes s ∧ hs.length = c.utf8Size ∧ ∀ b ∈ hs, 127 < b.toNat := by
  refine ⟨(String.utf8EncodeChar c).map Char.ofUInt8, rfl, ?_, fun b hb => ?_⟩
  · rw [List.length_map, String.length_utf8EncodeChar]
  · obtain ⟨n, hn, rfl⟩ := List.mem_map.1 hb
    exact Quoting.high_of_mem_utf8EncodeChar hc n hn

@[simp]
theorem length_bytes (s : List Char) : (bytes s).length = byteLength s := by
  induction s with
  | nil => rfl
  | cons c s ih =>
    rw [byteLength_cons, ← ih]
    rcases Nat.lt_or_ge 127 c.toNat with hc | hc
    · obtain ⟨hs, heq, hlength, _⟩ := bytes_high hc s
      rw [heq, List.length_append, hlength]
    · rw [bytes_low hc, List.length_cons, utf8Size_low hc, Nat.add_comm]

theorem bytes_append (u v : List Char) : bytes (u ++ v) = bytes u ++ bytes v :=
  List.flatMap_append

theorem ne_of_high (hb : 127 < b.toNat) (hc : c.toNat ≤ 127) : b ≠ c := by
  rintro rfl
  omega

def Low (p : Char → Bool) : Prop := ∀ b : Char, 127 < b.toNat → p b = false

theorem low_beq (hc : c.toNat ≤ 127) : Low (· == c) := fun _ hb =>
  beq_eq_false_iff_ne.2 (ne_of_high hb hc)

theorem low_isQuote : Low isQuote := fun b hb =>
  Bool.or_eq_false_iff.2 ⟨low_beq (by decide) b hb, low_beq (by decide) b hb⟩

theorem low_isGap : Low isGap := by
  intro b hb
  have hne : ∀ c : Char, c.toNat ≤ 127 → (b == c) = false := fun c hc => low_beq hc b hb
  simp [isGap, isAsciiBlank, hne ' ' (by decide), hne '\t' (by decide), hne '\n' (by decide),
    hne '\x0c' (by decide), hne '\r' (by decide), hne '-' (by decide)]

theorem not_isAlpha_of_high (hb : 127 < b.toNat) : b.isAlpha = false ∧ b.isDigit = false := by
  have habove (last : UInt32) (hlast : last.toNat ≤ 127) : ¬ b.val ≤ last :=
    UInt32.not_le.2 (UInt32.lt_iff_toNat_lt.2 (Nat.lt_of_le_of_lt hlast hb))
  have hupper : b.isUpper = false := decide_eq_false fun h => habove 'Z'.val (by decide) h.2
  have hlower : b.isLower = false :=
    Bool.and_eq_false_iff.2 (.inr (decide_eq_false (habove 'z'.val (by decide))))
  have hdigit : b.isDigit = false :=
    Bool.and_eq_false_iff.2 (.inr (decide_eq_false (habove '9'.val (by decide))))
  exact ⟨Bool.or_eq_false_iff.2 ⟨hupper, hlower⟩, hdigit⟩

theorem low_startsIdentifier : Low startsIdentifier := by
  intro b hb
  rw [startsIdentifier, (not_isAlpha_of_high hb).1, Bool.false_or]
  exact low_beq (by decide) b hb

theorem low_inIdentifier : Low inIdentifier := by
  intro b hb
  rw [inIdentifier, Char.isAlphanum, (not_isAlpha_of_high hb).1, (not_isAlpha_of_high hb).2,
    Bool.false_or, Bool.false_or]
  exact low_beq (by decide) b hb

theorem Low.le {p : Char → Bool} (hp : Low p) (hc : p c = true) : c.toNat ≤ 127 := by
  by_contra hhigh
  rw [hp c (Nat.lt_of_not_le hhigh)] at hc
  cases hc

/-- The first byte of a text is in the same classes within ASCII as the first character. -/
theorem head_bytes (c : Char) (s : List Char) :
    ∃ b hs, bytes (c :: s) = b :: (hs ++ bytes s) ∧ hs.length + 1 = c.utf8Size ∧
      (∀ b' ∈ hs, 127 < b'.toNat) ∧ (c.toNat ≤ 127 → b = c) ∧ ∀ p, Low p → p b = p c := by
  rcases Nat.lt_or_ge 127 c.toNat with hc | hc
  · obtain ⟨hs, heq, hlength, hhigh⟩ := bytes_high hc s
    cases hs with
    | nil => exact absurd hlength (Nat.ne_of_lt c.utf8Size_pos)
    | cons b hs =>
      obtain ⟨hb, hhs⟩ := List.forall_mem_cons.1 hhigh
      exact ⟨b, hs, heq, hlength, hhs, fun hle => absurd hc (Nat.not_lt.2 hle),
        fun p hp => (hp b hb).trans (hp c hc).symm⟩
  · exact ⟨c, [], bytes_low hc s, (utf8Size_low hc).symm, by simp, fun _ => rfl, fun _ _ => rfl⟩

end Bytes

theorem opens_cons_cons (b c : Char) (s : List Char) :
    opens (b :: c :: s) = (b == '{' && (c == '{' || c == '%' || c == '#')) := by
  by_cases hb : b = '{'
  · subst hb
    rfl
  · rw [beq_eq_false_iff_ne.2 hb, Bool.false_and]
    unfold opens
    split
    · next heq => exact absurd (List.cons.inj heq).1 hb
    · rfl

theorem low_opens_left (c : Char) : Low fun b => opens [b, c] := by
  intro b hb
  have hne : (b == '{') = false := low_beq (by decide) b hb
  change opens [b, c] = false
  rw [opens_cons_cons, hne, Bool.false_and]

theorem low_opens_right (b : Char) : Low fun c => opens [b, c] := by
  intro c hc
  have hne : ∀ d : Char, d.toNat ≤ 127 → (c == d) = false := fun d hd => low_beq hd c hc
  change opens [b, c] = false
  rw [opens_cons_cons, hne '{' (by decide), hne '%' (by decide), hne '#' (by decide), Bool.or_self,
    Bool.or_self, Bool.and_false]

section Scanners

variable {bs hs tail : List Char} {b c q : Char} {s : List Char} {quote : Option Char}
  {i stop : Nat}

theorem drop_behind (h : bs.drop i = bytes (c :: s) ++ tail) :
    bs.drop (i + c.utf8Size) = bytes s ++ tail := by
  obtain ⟨b, hs, heq, hsize, _⟩ := head_bytes c s
  rw [heq, List.cons_append, List.append_assoc] at h
  obtain ⟨_, _, _, hdrop⟩ := byteAt_of_drop h
  rw [← hsize, Nat.add_comm hs.length, ← Nat.add_assoc, ← List.drop_drop, hdrop]
  exact List.drop_left

theorem drop_behind_char (h : bs.drop i = bytes (c :: s)) :
    bs.drop (i + c.utf8Size) = bytes s := by
  have hbehind : bs.drop (i + c.utf8Size) = bytes s ++ [] :=
    drop_behind (h.trans (List.append_nil _).symm)
  rw [hbehind, List.append_nil]

theorem findDelimiter_step (hb : bs[i]? = some b) (hc : bs[i + 1]? = some c) :
    findDelimiter bs i = if opens [b, c] then .ok (some i) else findDelimiter bs (i + 1) := by
  rw [findDelimiter, if_pos (List.getElem?_eq_some_iff.1 hc).1, byteAt, hb, byteAt, hc]
  rfl

theorem findDelimiter_last (h : bs.length ≤ i + 1) : findDelimiter bs i = .ok none := by
  rw [findDelimiter, if_neg (Nat.not_lt.2 h)]
  rfl

theorem findDelimiter_next (hb : bs[i]? = some b)
    (hclosed : ∀ c, bs[i + 1]? = some c → opens [b, c] = false) :
    findDelimiter bs i = findDelimiter bs (i + 1) := by
  cases hnext : bs[i + 1]? with
  | none =>
    have hlast := List.getElem?_eq_none_iff.1 hnext
    rw [findDelimiter_last hlast, findDelimiter_last (Nat.le_succ_of_le hlast)]
  | some c =>
    rw [findDelimiter_step hb hnext, hclosed c hnext]
    rfl

theorem findDelimiter_skip (h : bs.drop i = hs ++ tail) (hhigh : ∀ b ∈ hs, 127 < b.toNat) :
    findDelimiter bs i = findDelimiter bs (i + hs.length) := by
  induction hs generalizing i with
  | nil => rfl
  | cons b hs ih =>
    obtain ⟨hb, hhs⟩ := List.forall_mem_cons.1 hhigh
    obtain ⟨_, hget, _, hdrop⟩ := byteAt_of_drop h
    rw [findDelimiter_next hget fun c _ => low_opens_left c b hb, ih hdrop hhs, List.length_cons,
      Nat.add_assoc, Nat.add_comm 1]

theorem findDelimiter_char (h : bs.drop i = bytes (c :: s)) (hclosed : opens (c :: s) = false) :
    findDelimiter bs i = findDelimiter bs (i + c.utf8Size) := by
  obtain ⟨b, hs, heq, hsize, hhigh, _, hclass⟩ := head_bytes c s
  rw [heq] at h
  obtain ⟨_, hget, _, hdrop⟩ := byteAt_of_drop h
  rw [findDelimiter_next hget, findDelimiter_skip hdrop hhigh, Nat.add_assoc, Nat.add_comm 1, hsize]
  intro e he
  rw [hclass (fun b => opens [b, e]) (low_opens_left e)]
  have hfirst : (hs ++ bytes s)[0]? = some e := by rw [← hdrop, List.getElem?_drop]; exact he
  cases hs with
  | cons b' hs =>
    obtain rfl : b' = e := by simpa using hfirst
    exact low_opens_right c b' (hhigh b' (List.mem_cons_self ..))
  | nil =>
    cases s with
    | nil => simp [bytes] at hfirst
    | cons d s =>
      obtain ⟨e', hs, heq', _, _, _, hclass'⟩ := head_bytes d s
      obtain rfl : e' = e := by simpa [heq'] using hfirst
      rw [hclass' (fun e => opens [c, e]) (low_opens_right c), ← hclosed, opens_cons_cons,
        opens_cons_cons]

theorem findDelimiter_eq (h : bs.drop i = bytes s) :
    findDelimiter bs i =
      .ok (if (textRun s).2 = [] then none else some (i + byteLength (textRun s).1)) := by
  induction s generalizing i with
  | nil =>
    rw [findDelimiter_last (Nat.le_succ_of_le (List.drop_eq_nil_iff.1 h))]
    rfl
  | cons c s ih =>
    rw [textRun]
    split
    · next hopens =>
      cases s with
      | nil => simp [opens] at hopens
      | cons d s =>
        have hpair : opens [c, d] = true := by rwa [opens_cons_cons] at hopens ⊢
        rw [bytes_low ((low_opens_left d).le hpair), bytes_low ((low_opens_right c).le hpair)] at h
        obtain ⟨_, hc, _, hdrop⟩ := byteAt_of_drop h
        obtain ⟨_, hd, _⟩ := byteAt_of_drop hdrop
        rw [findDelimiter_step hc hd, if_pos hpair]
        rfl
    · next hopens =>
      rw [findDelimiter_char h (by simpa using hopens), ih (drop_behind_char h)]
      simp [Nat.add_assoc]

def nextQuote (quote : Option Char) (b : Char) : Option Char :=
  match quote with
  | some q => if b == q then none else quote
  | none => if isQuote b then some b else none

theorem statementEnd_next (hb : bs[i]? = some b)
    (hescape : quote.isSome → b ≠ '\\')
    (hend : quote = none → b = '%' → bs[i + 1]? ≠ some '}') :
    statementEnd bs quote i = statementEnd bs (nextQuote quote b) (i + 1) := by
  rw [statementEnd, if_pos (List.getElem?_eq_some_iff.1 hb).1, byteAt, hb]
  cases quote with
  | some q =>
    have hne : (b == '\\') = false := beq_eq_false_iff_ne.2 (hescape rfl)
    change (if (b == '\\') = true then _ else _) = _
    rw [hne]
    rfl
  | none =>
    have hopen : (b == '%' && bs[i + 1]? == some '}') = false := by
      rw [Bool.and_eq_false_imp]
      exact fun hpercent => beq_eq_false_iff_ne.2 (hend rfl (beq_iff_eq.1 hpercent))
    change (if isQuote b = true then _ else if (b == '%' && bs[i + 1]? == some '}') = true then _
      else _) = _
    rw [hopen, nextQuote]
    split
    · rfl
    · rfl

theorem nextQuote_high (hb : 127 < b.toNat) (hquote : ∀ q, quote = some q → isQuote q = true) :
    nextQuote quote b = quote := by
  cases quote with
  | some q =>
    have hne : (b == q) = false := low_beq (low_isQuote.le (hquote q rfl)) b hb
    rw [nextQuote, hne]
    rfl
  | none =>
    rw [nextQuote, low_isQuote b hb]
    rfl

theorem isQuote_nextQuote (hquote : ∀ q, quote = some q → isQuote q = true) :
    ∀ q, nextQuote quote b = some q → isQuote q = true := by
  intro q hq
  cases quote with
  | some q' =>
    rw [nextQuote] at hq
    split at hq
    · cases hq
    · exact hquote q hq
  | none =>
    rw [nextQuote] at hq
    split at hq
    · next hb => exact Option.some.inj hq ▸ hb
    · cases hq

theorem statementEnd_skip (h : bs.drop i = hs ++ tail) (hhigh : ∀ b ∈ hs, 127 < b.toNat)
    (hquote : ∀ q, quote = some q → isQuote q = true) :
    statementEnd bs quote i = statementEnd bs quote (i + hs.length) := by
  induction hs generalizing i with
  | nil => rfl
  | cons b hs ih =>
    obtain ⟨hb, hhs⟩ := List.forall_mem_cons.1 hhigh
    obtain ⟨_, hget, _, hdrop⟩ := byteAt_of_drop h
    rw [statementEnd_next hget, nextQuote_high hb hquote, ih hdrop hhs, List.length_cons,
      Nat.add_assoc, Nat.add_comm 1]
    · exact fun _ => ne_of_high hb (by decide)
    · exact fun _ hpercent => absurd hpercent (ne_of_high hb (by decide))

theorem head?_of_bytes (h : (bytes s)[0]? = some b) (hb : b.toNat ≤ 127) : s.head? = some b := by
  cases s with
  | nil => cases h
  | cons c s =>
    obtain ⟨b', hs, heq, _, _, _, hclass⟩ := head_bytes c s
    obtain rfl : b' = b := by simpa [heq] using h
    have hsame : (b' == b') = (c == b') := hclass _ (low_beq hb)
    rw [beq_self_eq_true] at hsame
    rw [List.head?_cons, beq_iff_eq.1 hsame.symm]

theorem statementEnd_char (h : bs.drop i = bytes (c :: s))
    (hquote : ∀ q, quote = some q → isQuote q = true) (hescape : quote.isSome → c ≠ '\\')
    (hend : quote = none → c = '%' → s.head? ≠ some '}') :
    statementEnd bs quote i = statementEnd bs (nextQuote quote c) (i + c.utf8Size) := by
  rcases Nat.lt_or_ge 127 c.toNat with hc | hc
  · obtain ⟨hs, heq, hlength, hhigh⟩ := bytes_high hc s
    rw [nextQuote_high hc hquote, statementEnd_skip (heq ▸ h) hhigh hquote, hlength]
  · rw [bytes_low hc] at h
    obtain ⟨_, hget, _, hdrop⟩ := byteAt_of_drop h
    rw [statementEnd_next hget hescape, utf8Size_low hc]
    intro hnone hpercent hbrace
    rw [← Nat.add_zero (i + 1), ← List.getElem?_drop, hdrop] at hbrace
    exact hend hnone hpercent (head?_of_bytes hbrace (by decide))

/-- Behind a backslash the reader passes over the next character, byte by byte. -/
theorem statementEnd_escape (h : bs.drop i = bytes ('\\' :: c :: s)) (hq : isQuote q = true) :
    statementEnd bs (some q) i = statementEnd bs (some q) (i + 1 + c.utf8Size) := by
  rw [bytes_low (by decide)] at h
  obtain ⟨hi, _, hbyte, hdrop⟩ := byteAt_of_drop h
  obtain ⟨b, hs, heq, hsize, hhigh, _⟩ := head_bytes c s
  obtain ⟨_, _, _, hinside⟩ := byteAt_of_drop (heq ▸ hdrop)
  have hskip := statementEnd_skip hinside hhigh fun q' hq' => Option.some.inj hq' ▸ hq
  rw [Nat.add_assoc (i + 1), Nat.add_comm 1, hsize] at hskip
  rw [statementEnd, if_pos hi, hbyte, ← hskip]
  rfl

theorem statementEnd_stop (hb : bs[i]? = some '%') (hnext : bs[i + 1]? = some '}') :
    statementEnd bs none i = .ok (some (i + 2)) := by
  rw [statementEnd, if_pos (List.getElem?_eq_some_iff.1 hb).1, byteAt, hb, hnext]
  rfl

theorem statementEnd_of_le (h : bs.length ≤ i) : statementEnd bs quote i = .ok none := by
  rw [statementEnd, if_neg (Nat.not_lt.2 h)]
  rfl

theorem statementEnd_eq (hquote : ∀ q, quote = some q → isQuote q = true)
    (h : bs.drop i = bytes s) :
    statementEnd bs quote i =
      .ok ((statementBody? quote s).map fun p => i + byteLength p.1 + 2) := by
  -- what the readers find is counted from the start of the character before
  have hshift : ∀ (found : Option (List Char × List Char)) (i : Nat) (cs : List Char),
      (found.map fun p => i + byteLength cs + byteLength p.1 + 2) =
        (found.map fun p => (cs ++ p.1, p.2)).map fun p => i + byteLength p.1 + 2 := by
    intro found i cs
    cases found with
    | none => rfl
    | some p => simp [Nat.add_assoc]
  fun_induction statementBody? quote s generalizing i with
  | case1 quote => exact statementEnd_of_le (List.drop_eq_nil_iff.1 h)
  | case2 c =>
    rw [statementEnd_char h hquote (by simp) (by simp)]
    exact statementEnd_of_le (List.drop_eq_nil_iff.1 (drop_behind_char h))
  | case3 c d s hterminator =>
    obtain ⟨rfl, rfl⟩ : c = '%' ∧ d = '}' := by simpa using hterminator
    rw [bytes_low (by decide), bytes_low (by decide)] at h
    obtain ⟨_, hpercent, _, hdrop⟩ := byteAt_of_drop h
    obtain ⟨_, hbrace, _⟩ := byteAt_of_drop hdrop
    exact statementEnd_stop hpercent hbrace
  | case4 c d s hterminator ih =>
    rw [statementEnd_char h hquote (by simp) (by simpa using hterminator)]
    refine (ih (isQuote_nextQuote hquote) (drop_behind_char h)).trans ?_
    exact congrArg Except.ok (hshift _ i [c])
  | case5 q c hslash =>
    obtain rfl : c = '\\' := by simpa using hslash
    rw [bytes_low (by decide)] at h
    obtain ⟨hi, _, hbyte, hdrop⟩ := byteAt_of_drop h
    rw [statementEnd, if_pos hi, hbyte]
    exact statementEnd_of_le (Nat.le_succ_of_le (List.drop_eq_nil_iff.1 hdrop))
  | case6 q c hslash d s ih =>
    obtain rfl : c = '\\' := by simpa using hslash
    rw [statementEnd_escape h (hquote q rfl), Nat.add_assoc]
    refine (ih hquote ?_).trans (congrArg Except.ok (hshift _ i ['\\', d]))
    rw [← Nat.add_assoc]
    exact drop_behind_char (drop_behind_char h)
  | case7 q c s hslash ih =>
    rw [statementEnd_char h hquote (by simpa using hslash) (by simp)]
    refine (ih (isQuote_nextQuote hquote) (drop_behind_char h)).trans ?_
    exact congrArg Except.ok (hshift _ i [c])

theorem stringEnd_step (hi : i < stop) (hb : byteAt bs i = .ok b) :
    stringEnd bs q stop i = if b == q then .ok i
      else stringEnd bs q stop (if b == '\\' then i + 2 else i + 1) := by
  rw [stringEnd, if_pos hi, hb]
  change (if (b == q) = true then Except.ok i else if (b == '\\') = true then _ else _) = _
  split
  · rfl
  · split
    · rfl
    · rfl

theorem stringEnd_of_le (h : stop ≤ i) : stringEnd bs q stop i = .ok i := by
  rw [stringEnd, if_neg (Nat.not_lt.2 h)]
  rfl

theorem stringEnd_skip (h : bs.drop i = hs ++ tail) (hhigh : ∀ b ∈ hs, 127 < b.toNat)
    (hq : isQuote q = true) (hstop : i + hs.length ≤ stop) :
    stringEnd bs q stop i = stringEnd bs q stop (i + hs.length) := by
  induction hs generalizing i with
  | nil => rfl
  | cons b hs ih =>
    obtain ⟨hb, hhs⟩ := List.forall_mem_cons.1 hhigh
    obtain ⟨_, _, hbyte, hdrop⟩ := byteAt_of_drop h
    have hquote : (b == q) = false := low_beq (low_isQuote.le hq) b hb
    have hslash : (b == '\\') = false := low_beq (by decide) b hb
    rw [List.length_cons] at hstop
    rw [stringEnd_step (by omega) hbyte, hquote, hslash, List.length_cons, Nat.add_comm hs.length,
      ← Nat.add_assoc]
    apply ih hdrop hhs
    omega

theorem stringEnd_char (h : bs.drop i = bytes (c :: s) ++ tail) (hq : isQuote q = true)
    (hne : c ≠ q) (hslash : c ≠ '\\') (hstop : i + c.utf8Size ≤ stop) :
    stringEnd bs q stop i = stringEnd bs q stop (i + c.utf8Size) := by
  rcases Nat.lt_or_ge 127 c.toNat with hc | hc
  · obtain ⟨hs, heq, hlength, hhigh⟩ := bytes_high hc s
    rw [heq, List.append_assoc] at h
    rw [← hlength] at hstop ⊢
    exact stringEnd_skip h hhigh hq hstop
  · rw [bytes_low hc] at h
    obtain ⟨_, _, hbyte, _⟩ := byteAt_of_drop h
    rw [utf8Size_low hc] at hstop ⊢
    rw [stringEnd_step hstop hbyte, beq_eq_false_iff_ne.2 hne, beq_eq_false_iff_ne.2 hslash]
    rfl

theorem stringEnd_escape (h : bs.drop i = bytes ('\\' :: c :: s) ++ tail) (hq : isQuote q = true)
    (hstop : i + 1 + c.utf8Size ≤ stop) :
    stringEnd bs q stop i = stringEnd bs q stop (i + 1 + c.utf8Size) := by
  rw [bytes_low (by decide)] at h
  obtain ⟨_, _, hbyte, hdrop⟩ := byteAt_of_drop h
  obtain ⟨b, hs, heq, hsize, hhigh, _⟩ := head_bytes c s
  rw [heq, List.append_eq, List.cons_append, List.append_assoc] at hdrop
  obtain ⟨_, _, _, hinside⟩ := byteAt_of_drop hdrop
  have hne : ('\\' == q) = false := by
    rw [beq_eq_false_iff_ne]
    rintro rfl
    simp [isQuote] at hq
  have hskip : stringEnd bs q stop _ = _ := stringEnd_skip hinside hhigh hq (by omega)
  rw [Nat.add_assoc (i + 1), Nat.add_comm 1, hsize] at hskip
  rw [stringEnd_step (by omega) hbyte, hne, ← hskip]
  rfl

theorem stringEnd_eq (hq : isQuote q = true) (h : bs.drop i = bytes s ++ tail)
    (hstop : i + byteLength s = stop) :
    ∃ j, stringEnd bs q stop i = .ok j ∧ min (j + 1) stop = i + byteLength (quoted q s).1 := by
  -- the position `j` is that of the quote, or of the end; a backslash at the end makes it pass that
  fun_induction quoted q s generalizing i with
  | case1 =>
    refine ⟨i, ?_, ?_⟩
    · exact stringEnd_of_le (Nat.le_of_eq hstop.symm)
    · exact Nat.min_eq_right (Nat.le_succ_of_le (Nat.le_of_eq hstop.symm)) |>.trans hstop.symm
  | case2 c s hc =>
    obtain rfl : c = q := by simpa using hc
    have hlow := low_isQuote.le hq
    rw [bytes_low hlow] at h
    obtain ⟨_, _, hbyte, _⟩ := byteAt_of_drop h
    rw [byteLength_cons, utf8Size_low hlow] at hstop
    refine ⟨i, ?_, ?_⟩
    · rw [stringEnd_step (by omega) hbyte, beq_self_eq_true]
      rfl
    · rw [byteLength_cons, utf8Size_low hlow, byteLength_nil]
      omega
  | case3 c hc hslash =>
    obtain rfl : c = '\\' := by simpa using hslash
    rw [bytes_low (by decide)] at h
    obtain ⟨_, _, hbyte, _⟩ := byteAt_of_drop h
    have hne : ('\\' == q) = false := by simpa using hc
    have hone : byteLength ['\\'] = 1 := rfl
    rw [hone] at hstop ⊢
    refine ⟨i + 2, ?_, by omega⟩
    rw [stringEnd_step (by omega) hbyte, hne]
    apply stringEnd_of_le
    change stop ≤ i + 2
    omega
  | case4 c hc hslash d s r =>
    rename_i ih
    obtain rfl : c = '\\' := by simpa using hslash
    have hone : '\\'.utf8Size = 1 := rfl
    rw [byteLength_cons, byteLength_cons, hone] at hstop
    have hbehind := drop_behind (drop_behind h)
    rw [hone] at hbehind
    obtain ⟨j, hj, hmin⟩ := ih hbehind (by omega)
    refine ⟨j, ?_, ?_⟩
    · rw [stringEnd_escape h hq (by omega), hj]
    · rw [hmin, byteLength_cons, byteLength_cons, hone, Nat.add_assoc, Nat.add_assoc]
  | case5 c s hc hslash r =>
    rename_i ih
    rw [byteLength_cons] at hstop
    obtain ⟨j, hj, hmin⟩ := ih (drop_behind h) (by omega)
    refine ⟨j, ?_, ?_⟩
    · rw [stringEnd_char h hq (by simpa using hc) (by simpa using hslash) (by omega), hj]
    · rw [hmin, byteLength_cons, Nat.add_assoc]

theorem wordEnd_eq (h : bs.drop i = bytes s ++ tail) (hstop : i + byteLength s = stop) :
    wordEnd bs stop i = .ok (i + byteLength (s.takeWhile inIdentifier)) := by
  induction s generalizing i with
  | nil =>
    rw [wordEnd, if_neg (by simp at hstop; omega)]
    rfl
  | cons c s ih =>
    obtain ⟨b, hs, heq, hsize, _, hlow, hclass⟩ := head_bytes c s
    have hbehind := drop_behind h
    rw [heq] at h
    obtain ⟨_, _, hbyte, _⟩ := byteAt_of_drop h
    rw [byteLength_cons] at hstop
    rw [wordEnd, if_pos (by omega), hbyte]
    change (if inIdentifier b = true then wordEnd bs stop (i + 1) else .ok i) = _
    rw [hclass _ low_inIdentifier, List.takeWhile_cons]
    split
    · next hc =>
      have hone := utf8Size_low (low_inIdentifier.le hc)
      rw [hone] at hbehind hstop
      rw [ih hbehind (by omega), byteLength_cons, hone, Nat.add_assoc]
    · rfl

end Scanners

end Bytewise

end ProjectIndex.Twig
