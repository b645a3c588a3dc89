import ProjectIndex.Proofs.Grammar.Json.Tokens

/-!
A document is read back from its text: the value reader turns the tokens of a value into its node
and leaves what stands behind them.
-/
namespace ProjectIndex.Json

open ProjectIndex.Text

section Kinds

def firstKinds : List String := ["string", "number", "true", "false", "null", "[", "\x7b"]

def tokenKinds : List String := firstKinds ++ ["]", "\x7d", ",", ":"]

theorem Word.kind_mem_firstKinds (w : Word) : w.kind ∈ firstKinds := by
  cases w <;> decide

theorem Value.exists_tokens_eq_cons (v : Value) (before : List Char) :
    ∃ t ts, v.tokens before = t :: ts ∧ t.kind ∈ firstKinds := by
  cases v with
  | string s => exact ⟨_, _, rfl, (by decide : "string" ∈ firstKinds)⟩
  | number n => exact ⟨_, _, rfl, (by decide : "number" ∈ firstKinds)⟩
  | word w => exact ⟨_, _, rfl, w.kind_mem_firstKinds⟩
  | array items =>
    rw [Value.tokens]
    exact ⟨_, _, rfl, (by decide : "[" ∈ firstKinds)⟩
  | object members =>
    rw [Value.tokens]
    exact ⟨_, _, rfl, (by decide : "\x7b" ∈ firstKinds)⟩

theorem Value.mark?_tokens (v : Value) {stop : String} (hstop : stop ∉ firstKinds)
    (before : List Char) (ts : List Shape) : mark? stop (v.tokens before ++ ts) = none := by
  obtain ⟨t, us, htokens, hkind⟩ := v.exists_tokens_eq_cons before
  have hother : t.kind ≠ stop := fun h => hstop (h ▸ hkind)
  rw [htokens, List.cons_append, mark?, beq_false_of_ne hother, if_neg Bool.false_ne_true]

theorem Value.length_tokens_pos (v : Value) (before : List Char) : 0 < (v.tokens before).length := by
  obtain ⟨t, ts, htokens, _⟩ := v.exists_tokens_eq_cons before
  rw [htokens, List.length_cons]
  exact Nat.succ_pos _

theorem kind_mem_commaShapes {t : Shape} {before comma : List Char}
    (h : t ∈ commaShapes before comma) : t.kind ∈ tokenKinds := by
  cases comma with
  | nil => cases h
  | cons c comma =>
    obtain rfl := List.mem_singleton.1 h
    exact (by decide : "," ∈ tokenKinds)

mutual

theorem Value.kind_mem_tokens : ∀ (v : Value) (before : List Char),
    ∀ t ∈ v.tokens before, t.kind ∈ tokenKinds
  | .string s, before => by
    rw [Value.tokens, List.forall_mem_singleton]
    exact (by decide : "string" ∈ tokenKinds)
  | .number n, before => by
    rw [Value.tokens, List.forall_mem_singleton]
    exact (by decide : "number" ∈ tokenKinds)
  | .word w, before => by
    rw [Value.tokens, List.forall_mem_singleton]
    exact List.mem_append_left _ w.kind_mem_firstKinds
  | .array items, before => by
    rw [Value.tokens, List.forall_mem_cons, List.forall_mem_append, List.forall_mem_singleton]
    exact ⟨(by decide : "[" ∈ tokenKinds), items.kind_mem_tokens _, (by decide : "]" ∈ tokenKinds)⟩
  | .object members, before => by
    rw [Value.tokens, List.forall_mem_cons, List.forall_mem_append, List.forall_mem_singleton]
    exact ⟨(by decide : "\x7b" ∈ tokenKinds), members.kind_mem_tokens _,
      (by decide : "\x7d" ∈ tokenKinds)⟩

theorem Items.kind_mem_tokens : ∀ (items : Items) (before : List Char),
    ∀ t ∈ items.tokens before, t.kind ∈ tokenKinds
  | .nil _, _ => fun t ht => by cases ht
  | .cons gap value after rest, before => by
    rw [Items.tokens, List.forall_mem_append, List.forall_mem_append]
    exact ⟨value.kind_mem_tokens _, fun t ht => kind_mem_commaShapes ht, rest.kind_mem_tokens _⟩

theorem Members.kind_mem_tokens : ∀ (members : Members) (before : List Char),
    ∀ t ∈ members.tokens before, t.kind ∈ tokenKinds
  | .nil _, _ => fun t ht => by cases ht
  | .cons gap name beforeColon afterColon value after rest, before => by
    rw [Members.tokens, List.forall_mem_cons, List.forall_mem_cons, List.forall_mem_append,
      List.forall_mem_append]
    exact ⟨(by decide : "string" ∈ tokenKinds), (by decide : ":" ∈ tokenKinds),
      value.kind_mem_tokens _, fun t ht => kind_mem_commaShapes ht, rest.kind_mem_tokens _⟩

end

end Kinds

section Steps

variable {item : Reader} {stop kind : String} {t i : Shape} {ts us vs xs : List Shape} {n : Nat}

theorem mark?_self (h : t.kind = kind) (ts : List Shape) : mark? kind (t :: ts) = some (t, ts) := by
  rw [mark?, h, beq_self_eq_true, if_pos rfl]

theorem mark?_other (h : t.kind ≠ kind) (ts : List Shape) : mark? kind (t :: ts) = none := by
  rw [mark?, beq_false_of_ne h, if_neg Bool.false_ne_true]

theorem strayNumbers_of_ne (h : t.kind ≠ "ERROR") (ts : List Shape) :
    strayNumbers (t :: ts) = ([], t :: ts) := by
  rw [strayNumbers, beq_false_of_ne h, if_neg Bool.false_ne_true]

/-- A reader takes some tokens for one item, whatever stands behind them. -/
def ReadsAs (item : Reader) (us : List Shape) (i : Shape) : Prop :=
  ∀ ts, item (us ++ ts) = some (i, ts)

/-- The items behind the first one are read up to the closing mark. Each of them takes at least one
token, so there are enough tokens to count them by. -/
def ReadsAfter (item : Reader) (stop : String) (us xs : List Shape) : Prop :=
  ∀ ts n, us.length < n → itemsAfter item stop n (us ++ ts) = some (xs, ts)

def ReadsItems (item : Reader) (stop : String) (us xs : List Shape) : Prop :=
  ∀ ts, items item stop (us ++ ts) = some (xs, ts)

theorem readsAfter_stop (h : t.kind = stop) (hstop : stop ≠ "ERROR") :
    ReadsAfter item stop [t] [t] := by
  intro ts n hn
  obtain ⟨n, rfl⟩ := Nat.exists_eq_add_one_of_ne_zero (Nat.ne_zero_of_lt hn)
  have hne : t.kind ≠ "ERROR" := h ▸ hstop
  rw [List.singleton_append, itemsAfter, strayNumbers_of_ne hne]
  dsimp only
  rw [mark?_self h]
  rfl

theorem readsAfter_comma (ht : t.kind = ",") (hstop : stop ≠ ",") (hitem : ReadsAs item us i)
    (hrest : ReadsAfter item stop vs xs) :
    ReadsAfter item stop (t :: (us ++ vs)) (t :: i :: xs) := by
  intro ts n hn
  obtain ⟨n, rfl⟩ := Nat.exists_eq_add_one_of_ne_zero (Nat.ne_zero_of_lt hn)
  rw [List.length_cons, List.length_append] at hn
  have herror : t.kind ≠ "ERROR" := ht ▸ by decide
  have hother : t.kind ≠ stop := ht ▸ hstop.symm
  have hafter := hrest ts n (by omega)
  rw [List.cons_append, List.append_assoc, itemsAfter, strayNumbers_of_ne herror]
  dsimp only
  rw [mark?_other hother, mark?_self ht]
  change (item (us ++ (vs ++ ts))).bind _ = _
  rw [hitem]
  change (itemsAfter item stop n (vs ++ ts)).bind _ = _
  rw [hafter]
  rfl

theorem readsItems_stop (h : t.kind = stop) : ReadsItems item stop [t] [t] := by
  intro ts
  rw [List.singleton_append, items, mark?_self h]

theorem readsItems_first (hmark : ∀ ts, mark? stop (us ++ ts) = none) (hitem : ReadsAs item us i)
    (hrest : ReadsAfter item stop vs xs) : ReadsItems item stop (us ++ vs) (i :: xs) := by
  intro ts
  have hlength : vs.length < (vs ++ ts).length + 1 := by
    rw [List.length_append]
    omega
  have hafter := hrest ts _ hlength
  rw [List.append_assoc, items, hmark]
  change (item (us ++ (vs ++ ts))).bind _ = _
  rw [hitem]
  change (itemsAfter item stop ((vs ++ ts).length + 1) (vs ++ ts)).bind _ = _
  rw [hafter]
  rfl

theorem readsAs_pair {read : Reader} {key colon : Shape} (hkey : key.kind = "string")
    (hcolon : colon.kind = ":") (hread : ReadsAs read us i) :
    ReadsAs (pair read) (key :: colon :: us) (.spanning "pair" [key, colon, i]) := by
  intro ts
  have hstring : (key.kind != "string" && key.kind != "number") = false := by
    rw [hkey]
    decide
  rw [List.cons_append, List.cons_append, pair, hstring, if_neg Bool.false_ne_true, mark?_self hcolon]
  change (read (us ++ ts)).bind _ = _
  rw [hread]
  rfl

theorem readsAs_array (ht : t.kind = "[") (h : ReadsItems (value n) "]" us xs) :
    ReadsAs (value (n + 1)) (t :: us) (.spanning "array" (t :: xs)) := by
  intro ts
  rw [List.cons_append, value, ht, h]
  rfl

theorem readsAs_object (ht : t.kind = "\x7b") (h : ReadsItems (pair (value n)) "\x7d" us xs) :
    ReadsAs (value (n + 1)) (t :: us) (.spanning "object" (t :: xs)) := by
  intro ts
  rw [List.cons_append, value, ht, h]
  rfl

theorem readsAs_scalar (ht : t.kind ∈ scalarKinds) (n : Nat) : ReadsAs (value (n + 1)) [t] t := by
  intro ts
  have hnone : ∀ kind ∈ scalarKinds, (kind == "\x7b") = false ∧ (kind == "[") = false := by decide
  obtain ⟨hobject, harray⟩ := hnone t.kind ht
  rw [List.singleton_append, value, hobject, harray, List.contains_iff_mem.2 ht]
  rfl

theorem values_cons (ht : t.kind ≠ "ERROR") (hread : value (ts.length + 2) (t :: ts) = some (i, us))
    (hrest : values n us = some vs) : values (n + 1) (t :: ts) = some (i :: vs) := by
  rw [values, beq_false_of_ne ht, if_neg Bool.false_ne_true, hread]
  change (values n us).bind _ = _
  rw [hrest]
  rfl

end Steps

section Values

theorem Value.start_shape (v : Value) (before : List Char) :
    (v.shape before).start = byteLength before := by
  cases v <;> rw [Value.shape] <;> rfl

theorem Value.stop_shape (v : Value) (before : List Char) :
    (v.shape before).stop = byteLength (before ++ v.chars) := by
  cases v with
  | string s => exact (byteLength_append before s.literal.text).symm
  | number n => rfl
  | word w => rfl
  | array items =>
    rw [Value.shape, Value.chars, Shape.stop, List.append_assoc, List.append_assoc]
    rfl
  | object members =>
    rw [Value.shape, Value.chars, Shape.stop, List.append_assoc, List.append_assoc]
    rfl

theorem Word.kind_mem_scalarKinds (w : Word) : w.kind ∈ scalarKinds := by
  cases w <;> decide

theorem spanning_pair (start : List Char) (name : MemberName) (beforeColon afterColon : Gap)
    (v : Value) :
    let colon := start ++ name.text.literal.text ++ beforeColon.chars
    let valueShape := v.shape (beforeValue start name beforeColon afterColon)
    Shape.spanning "pair" [name.text.shape start, leafAt ":" false colon [':'], valueShape] =
      memberShape start name beforeColon afterColon v.chars valueShape := by
  intro colon valueShape
  have hstop := v.stop_shape (beforeValue start name beforeColon afterColon)
  have hspan := Shape.spanning_concat "pair" (name.text.shape start) valueShape
    [leafAt ":" false colon [':']]
  rw [memberShape, ← hstop]
  exact hspan

theorem readsAs_member {n : Nat} (start : List Char) (name : MemberName)
    (beforeColon afterColon : Gap) (v : Value) :
    let colon := start ++ name.text.literal.text ++ beforeColon.chars
    let first := beforeValue start name beforeColon afterColon
    ReadsAs (value n) (v.tokens first) (v.shape first) →
    ReadsAs (pair (value n)) (name.text.shape start :: leafAt ":" false colon [':'] :: v.tokens first)
      (memberShape start name beforeColon afterColon v.chars (v.shape first)) := by
  intro colon first hread
  have hkey : (name.text.shape start).kind = "string" := rfl
  have hcolon : (leafAt ":" false colon [':']).kind = ":" := rfl
  rw [← spanning_pair]
  exact readsAs_pair hkey hcolon hread

theorem Items.tokens_cons_append (gap : Gap) (v : Value) (after : Gap) (rest : Items)
    (before : List Char) (us : List Shape) :
    let first := before ++ gap.chars
    let behind := behindValue first v after
    (Items.cons gap v after rest).tokens before ++ us =
      v.tokens first ++ (commaShapes behind rest.comma ++ (rest.tokens (behind ++ rest.comma) ++ us)) := by
  intro first behind
  rw [Items.tokens]
  change v.tokens first ++ (commaShapes behind rest.comma ++ rest.tokens (behind ++ rest.comma)) ++ us = _
  rw [List.append_assoc (v.tokens first), List.append_assoc (commaShapes behind rest.comma)]

theorem Items.shapes_cons_append (gap : Gap) (v : Value) (after : Gap) (rest : Items)
    (before : List Char) (us : List Shape) :
    let first := before ++ gap.chars
    let behind := behindValue first v after
    (Items.cons gap v after rest).shapes before ++ us =
      v.shape first :: (commaShapes behind rest.comma ++ (rest.shapes (behind ++ rest.comma) ++ us)) := by
  intro first behind
  rw [Items.shapes, List.cons_append]
  exact congrArg (v.shape first :: ·) (List.append_assoc (commaShapes behind rest.comma) _ us)

theorem Members.tokens_cons_append (gap : Gap) (name : MemberName) (beforeColon afterColon : Gap)
    (v : Value) (after : Gap) (rest : Members) (before : List Char) (us : List Shape) :
    let start := before ++ gap.chars
    let colon := start ++ name.text.literal.text ++ beforeColon.chars
    let first := beforeValue start name beforeColon afterColon
    let behind := behindValue first v after
    (Members.cons gap name beforeColon afterColon v after rest).tokens before ++ us =
      name.text.shape start :: leafAt ":" false colon [':'] :: (v.tokens first ++
        (commaShapes behind rest.comma ++ (rest.tokens (behind ++ rest.comma) ++ us))) := by
  intro start colon first behind
  rw [Members.tokens, List.cons_append, List.cons_append]
  change _ :: _ ::
    (v.tokens first ++ (commaShapes behind rest.comma ++ rest.tokens (behind ++ rest.comma)) ++ us) = _
  rw [List.append_assoc (v.tokens first), List.append_assoc (commaShapes behind rest.comma)]

theorem Members.shapes_cons_append (gap : Gap) (name : MemberName) (beforeColon afterColon : Gap)
    (v : Value) (after : Gap) (rest : Members) (before : List Char) (us : List Shape) :
    let start := before ++ gap.chars
    let first := beforeValue start name beforeColon afterColon
    let behind := behindValue first v after
    (Members.cons gap name beforeColon afterColon v after rest).shapes before ++ us =
      memberShape start name beforeColon afterColon v.chars (v.shape first) ::
        (commaShapes behind rest.comma ++ (rest.shapes (behind ++ rest.comma) ++ us)) := by
  intro start first behind
  rw [Members.shapes, List.cons_append]
  exact congrArg (memberShape start name beforeColon afterColon v.chars (v.shape first) :: ·)
    (List.append_assoc (commaShapes behind rest.comma) _ us)

theorem Items.length_tokens_le {gap : Gap} {v : Value} {after : Gap} {rest : Items}
    {before : List Char} {n : Nat} (h : ((Items.cons gap v after rest).tokens before).length ≤ n) :
    let first := before ++ gap.chars
    let behind := behindValue first v after
    (v.tokens first).length ≤ n ∧ (rest.tokens (behind ++ rest.comma)).length ≤ n := by
  intro first behind
  rw [Items.tokens, List.length_append, List.length_append] at h
  change (v.tokens first).length + (_ + (rest.tokens (behind ++ rest.comma)).length) ≤ n at h
  omega

theorem Members.length_tokens_le {gap beforeColon afterColon after : Gap} {name : MemberName}
    {v : Value} {rest : Members} {before : List Char} {n : Nat}
    (h : ((Members.cons gap name beforeColon afterColon v after rest).tokens before).length ≤ n) :
    let first := beforeValue (before ++ gap.chars) name beforeColon afterColon
    let behind := behindValue first v after
    (v.tokens first).length ≤ n ∧ (rest.tokens (behind ++ rest.comma)).length ≤ n := by
  intro first behind
  rw [Members.tokens, List.length_cons, List.length_cons, List.length_append,
    List.length_append] at h
  change (v.tokens first).length + (_ + (rest.tokens (behind ++ rest.comma)).length) + 2 ≤ n at h
  omega

mutual

/-- A value is read from its tokens. Each level of nesting takes at least one of them, so there are
enough of them to count the levels by. -/
theorem Value.reads : ∀ (v : Value) (before : List Char) {n : Nat}, (v.tokens before).length ≤ n →
    ReadsAs (value n) (v.tokens before) (v.shape before)
  | .string s, before, n + 1, _ =>
    readsAs_scalar (t := s.shape before) (by decide : "string" ∈ scalarKinds) n
  | .number m, before, n + 1, _ =>
    readsAs_scalar (t := leafAt "number" true before m.chars) (by decide : "number" ∈ scalarKinds) n
  | .word w, before, n + 1, _ =>
    readsAs_scalar (t := leafAt w.kind true before w.chars) w.kind_mem_scalarKinds n
  | .array items, before, n + 1, hn => by
    rw [Value.tokens, List.length_cons, List.length_append] at hn
    have hlength : (items.tokens (before ++ ['['])).length ≤ n := by omega
    have hitems := items.reads (before ++ ['['])
      (leafAt "]" false (before ++ ['['] ++ items.chars) [']']) rfl hlength
    have hread := readsAs_array (t := leafAt "[" false before ['[']) rfl hitems
    rw [Shape.spanning_concat] at hread
    rw [Value.tokens, Value.shape]
    exact hread
  | .object members, before, n + 1, hn => by
    rw [Value.tokens, List.length_cons, List.length_append] at hn
    have hlength : (members.tokens (before ++ ['\x7b'])).length ≤ n := by omega
    have hmembers := members.reads (before ++ ['\x7b'])
      (leafAt "\x7d" false (before ++ ['\x7b'] ++ members.chars) ['\x7d']) rfl hlength
    have hread := readsAs_object (t := leafAt "\x7b" false before ['\x7b']) rfl hmembers
    rw [Shape.spanning_concat] at hread
    rw [Value.tokens, Value.shape]
    exact hread
  | v, before, 0, hn => absurd hn (Nat.not_le_of_gt (v.length_tokens_pos before))

theorem Items.reads : ∀ (items : Items) (before : List Char) (close : Shape) {n : Nat},
    close.kind = "]" → (items.tokens before).length ≤ n →
    ReadsItems (value n) "]" (items.tokens before ++ [close]) (items.shapes before ++ [close])
  | .nil _, _, _, _, hclose, _ => readsItems_stop hclose
  | .cons gap v after rest, before, close, n, hclose, hn => by
    obtain ⟨hvalue, hrest⟩ := Items.length_tokens_le hn
    have hstop : "]" ∉ firstKinds := by decide
    rw [Items.tokens_cons_append, Items.shapes_cons_append]
    exact readsItems_first (v.mark?_tokens hstop _) (v.reads _ hvalue)
      (rest.readsAfter _ _ hclose hrest)

theorem Items.readsAfter : ∀ (items : Items) (behind before : List Char) {close : Shape} {n : Nat},
    close.kind = "]" → (items.tokens before).length ≤ n →
    ReadsAfter (value n) "]" (commaShapes behind items.comma ++ (items.tokens before ++ [close]))
      (commaShapes behind items.comma ++ (items.shapes before ++ [close]))
  | .nil _, _, _, _, _, hclose, _ => readsAfter_stop hclose (by decide)
  | .cons gap v after rest, behind, before, close, n, hclose, hn => by
    obtain ⟨hvalue, hrest⟩ := Items.length_tokens_le hn
    have hafter := rest.readsAfter (behindValue (before ++ gap.chars) v after) _ hclose hrest
    have hread := readsAfter_comma (t := leafAt "," false behind [',']) rfl (by decide)
      (v.reads _ hvalue) hafter
    rw [Items.tokens_cons_append, Items.shapes_cons_append]
    exact hread

theorem Members.reads : ∀ (members : Members) (before : List Char) (close : Shape) {n : Nat},
    close.kind = "\x7d" → (members.tokens before).length ≤ n →
    ReadsItems (pair (value n)) "\x7d" (members.tokens before ++ [close])
      (members.shapes before ++ [close])
  | .nil _, _, _, _, hclose, _ => readsItems_stop hclose
  | .cons gap name beforeColon afterColon v after rest, before, close, n, hclose, hn => by
    obtain ⟨hvalue, hrest⟩ := Members.length_tokens_le hn
    let start := before ++ gap.chars
    have hmark := mark?_other (t := name.text.shape start) (by decide : "string" ≠ "\x7d")
    have hmember := readsAs_member start name beforeColon afterColon v (v.reads _ hvalue)
    rw [Members.tokens_cons_append, Members.shapes_cons_append]
    exact readsItems_first (fun ts => hmark _) hmember (rest.readsAfter _ _ hclose hrest)

theorem Members.readsAfter : ∀ (members : Members) (behind before : List Char) {close : Shape}
    {n : Nat}, close.kind = "\x7d" → (members.tokens before).length ≤ n →
    ReadsAfter (pair (value n)) "\x7d"
      (commaShapes behind members.comma ++ (members.tokens before ++ [close]))
      (commaShapes behind members.comma ++ (members.shapes before ++ [close]))
  | .nil _, _, _, _, _, hclose, _ => readsAfter_stop hclose (by decide)
  | .cons gap name beforeColon afterColon v after rest, behind, before, close, n, hclose, hn => by
    obtain ⟨hvalue, hrest⟩ := Members.length_tokens_le hn
    let start := before ++ gap.chars
    let first := beforeValue start name beforeColon afterColon
    have hmember := readsAs_member start name beforeColon afterColon v (v.reads first hvalue)
    have hafter := rest.readsAfter (behindValue first v after) _ hclose hrest
    have hread := readsAfter_comma (t := leafAt "," false behind [',']) rfl (by decide) hmember hafter
    rw [Members.tokens_cons_append, Members.shapes_cons_append]
    exact hread

end

end Values

section Documents

theorem Value.head_ne_mark (v : Value) (rest : List Char) :
    ∀ c ∈ (v.chars ++ rest).head?, c ≠ '\uFEFF' := by
  rintro c hc rfl
  cases v with
  | string s => cases hc
  | number n =>
    have hhead : (n.chars ++ rest).head? = some '\uFEFF' := hc
    rw [List.head?_append_of_ne_nil _ n.chars_ne_nil] at hhead
    exact absurd (head?_number n '\uFEFF' hhead) (by decide)
  | word w => cases w <;> cases hc
  | array items =>
    rw [Value.chars] at hc
    cases hc
  | object members =>
    rw [Value.chars] at hc
    cases hc

theorem ofSource_of_ne {src : Source} (h : ∀ c ∈ src.head?, c ≠ '\uFEFF') :
    Cursor.ofSource src = cursor [] src := by
  unfold Cursor.ofSource
  split
  · exact absurd rfl (h _ rfl)
  · rfl

namespace Document

variable (d : Document)

theorem ofSource_text : ∃ before, d.lead = before ++ d.before.chars ∧
    Cursor.ofSource d.text = cursor before (d.before.chars ++ (d.value.chars ++ d.after.chars)) := by
  rw [text, lead]
  cases d.mark with
  | true => exact ⟨['\uFEFF'], rfl, rfl⟩
  | false =>
    refine ⟨[], rfl, ofSource_of_ne fun c hc => ?_⟩
    cases hgap : d.before.chars with
    | nil =>
      rw [hgap] at hc
      exact d.value.head_ne_mark d.after.chars c hc
    | cons b gap =>
      rw [hgap] at hc
      obtain rfl := Option.some.inj hc
      have hblank := d.before.blank b (by rw [hgap]; exact List.mem_cons_self ..)
      rintro rfl
      exact absurd hblank (by decide)

theorem tokens_text : Json.tokens (d.text.length + 1) false (Cursor.ofSource d.text) =
    some (d.value.tokens d.lead) := by
  obtain ⟨before, hlead, hstart⟩ := d.ofSource_text
  have hstops : Stops d.after.chars := by
    rw [← List.append_nil d.after.chars]
    exact d.after.stops fun c hc => by cases hc
  have hvalue := (d.before.lexes before _).append (d.value.lexes (before ++ d.before.chars) hstops)
  have hlength : ((d.before.chars ++ d.value.chars) ++ d.after.chars).length < d.text.length + 1 := by
    rw [text, hlead]
    simp only [List.length_append]
    omega
  obtain ⟨fuel, hfuel, hread⟩ := hvalue _ hlength
  obtain ⟨n, rfl⟩ := Nat.exists_eq_add_one_of_ne_zero (Nat.ne_zero_of_lt hfuel)
  have hend : Json.tokens (n + 1) false (cursor (before ++ (d.before.chars ++ d.value.chars))
      d.after.chars) = some [] := by
    have hskip := skipWhile_append d.after.blank (before ++ (d.before.chars ++ d.value.chars)) []
    rw [List.append_nil] at hskip
    rw [tokens_succ, hskip]
    rfl
  rw [hend, List.append_assoc] at hread
  rw [hstart, hread, hlead]
  exact congrArg some (List.append_nil _)

theorem values_tokens : values ((d.value.tokens d.lead).length + 1) (d.value.tokens d.lead) =
    some [d.value.shape d.lead] := by
  obtain ⟨t, ts, htokens, hkind⟩ := d.value.exists_tokens_eq_cons d.lead
  have hfuel : (d.value.tokens d.lead).length ≤ ts.length + 2 := by
    rw [htokens, List.length_cons]
    omega
  have hread := d.value.reads d.lead hfuel []
  rw [htokens, List.append_nil] at hread
  have herror : ∀ kind ∈ firstKinds, kind ≠ "ERROR" := by decide
  rw [htokens, List.length_cons]
  exact values_cons (herror _ hkind) hread rfl

theorem document?_text : document? d.text = some d.shape := by
  have hkinds : ∀ kind ∈ tokenKinds, (kind == "comment") = false := by decide
  have hcomment : ∀ t ∈ d.value.tokens d.lead, (t.kind == "comment") = false :=
    fun t ht => hkinds _ (d.value.kind_mem_tokens d.lead t ht)
  have hcomments : (d.value.tokens d.lead).filter (fun t => t.kind == "comment") = [] :=
    List.filter_eq_nil_iff.2 fun t ht => Bool.not_eq_true _ ▸ hcomment t ht
  have hothers : (d.value.tokens d.lead).filter (fun t => t.kind != "comment") =
      d.value.tokens d.lead :=
    List.filter_eq_self.2 fun t ht => by rw [bne, hcomment t ht]; rfl
  rw [document?, d.tokens_text]
  change (values ((d.value.tokens d.lead).length + 1) (List.filter _ _)).bind _ = _
  rw [hothers, d.values_tokens]
  change some (Shape.rootSpanning "document" d.text (Shape.withComments
    (List.filter _ (d.value.tokens d.lead)) _)) = _
  rw [hcomments, shape, ← d.value.start_shape d.lead]
  rfl

/-- A document is read as its tree. -/
theorem parse_text : parse d.text = d.tree := by
  rw [parse, d.document?_text]
  rfl

end Document

end Documents

end ProjectIndex.Json
