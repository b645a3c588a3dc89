import Mathlib.Data.List.Basic
import ProjectIndex.Proofs.Grammar.Twig.Cuts
import ProjectIndex.Proofs.Grammar.Twig.Tokens
import ProjectIndex.Proofs.Text.Search

/-!
Templates as they are written: a list of texts, comments, outputs, tags and blocks, rendered with one
blank around and between the words of a statement. Such a text is cut exactly where the renderer put
one piece behind the other, and a statement falls into the words it was made of.
-/
namespace ProjectIndex.Twig

open ProjectIndex.Text

inductive Argument where
  | identifier (name : List Char)
  | string (quote : Char) (inside : List Char)
deriving Inhabited, Repr

namespace Argument

def chars : Argument → List Char
  | identifier name => name
  | string quote inside => quote :: (inside ++ [quote])

def tokenKind : Argument → TokenKind
  | identifier _ => .identifier
  | string .. => .string

/-- A string holds no backslash and not its own quote. -/
def WellFormed : Argument → Prop
  | identifier name => IsIdentifier name
  | string quote inside => isQuote quote = true ∧ '\\' ∉ inside ∧ quote ∉ inside

instance : DecidablePred WellFormed
  | identifier name => inferInstanceAs (Decidable (IsIdentifier name))
  | string quote inside =>
    inferInstanceAs (Decidable (isQuote quote = true ∧ '\\' ∉ inside ∧ quote ∉ inside))

end Argument

def statementOf : List Argument → List Char
  | [] => [' ']
  | word :: words => ' ' :: (word.chars ++ statementOf words)

def tokensOf (pos : Nat) : List Argument → List Token
  | [] => []
  | word :: words =>
    ⟨word.tokenKind, pos + 1, word.chars⟩ :: tokensOf (pos + 1 + byteLength word.chars) words

def Delimiter.wrap (d : Delimiter) (body : List Char) : List Char := d.opening ++ (body ++ d.closing)

instance {p : Delimiter → Prop} [DecidablePred p] : Decidable (∀ d, p d) :=
  decidable_of_iff (p .comment ∧ p .output ∧ p .statement)
    ⟨fun ⟨hcomment, houtput, hstatement⟩ d => by cases d <;> assumption,
      fun h => ⟨h _, h _, h _⟩⟩

inductive Item where
  | text (chars : List Char)
  | comment (body : List Char)
  | output (body : List Char)
  | tag (name : List Char) (args : List Argument)
  | block (name : List Char) (items : List Item)
deriving Inhabited, Repr

namespace Item

def tagWords (name : List Char) (args : List Argument) : List Argument := .identifier name :: args

def blockWords (name : List Char) : List Argument :=
  [.identifier "block".toList, .identifier name]

def endWords : List Argument := [.identifier "endblock".toList]

def isText : Item → Bool
  | text _ => true
  | _ => false

mutual

def render : Item → List Char
  | text chars => chars
  | comment body => Delimiter.comment.wrap body
  | output body => Delimiter.output.wrap body
  | tag name args => Delimiter.statement.wrap (statementOf (tagWords name args))
  | block name items =>
    Delimiter.statement.wrap (statementOf (blockWords name)) ++
      (renderAll items ++ Delimiter.statement.wrap (statementOf endWords))

def renderAll : List Item → List Char
  | [] => []
  | item :: rest => item.render ++ renderAll rest

end

theorem renderAll_append (xs ys : List Item) :
    renderAll (xs ++ ys) = renderAll xs ++ renderAll ys := by
  induction xs with
  | nil => rw [List.nil_append, renderAll, List.nil_append]
  | cons item xs ih => rw [List.cons_append, renderAll, ih, renderAll, List.append_assoc]

mutual

def segments : Item → List Segment
  | text chars => [.text chars]
  | comment body => [.comment body true]
  | output body => [.output body true]
  | tag name args => [.statement (statementOf (tagWords name args)) true]
  | block name items =>
    .statement (statementOf (blockWords name)) true ::
      (segmentsAll items ++ [.statement (statementOf endWords) true])

def segmentsAll : List Item → List Segment
  | [] => []
  | item :: rest => item.segments ++ segmentsAll rest

end

mutual

/-- Whether an item can be told from what it stands next to. -/
def WellFormed : Item → Prop
  | text chars => chars ≠ [] ∧ (∀ d : Delimiter, ¬ d.opening <:+: chars) ∧ chars.getLast? ≠ some '{'
  | comment body => ¬ Delimiter.comment.closing <:+: body
  | output body => ¬ Delimiter.output.closing <:+: body ∧ body.getLast? ≠ some '}'
  | tag name args => IsIdentifier name ∧ name ≠ "block".toList ∧ name ≠ "endblock".toList ∧
      ∀ a ∈ args, a.WellFormed
  | block name items => IsIdentifier name ∧ AllWellFormed items

def AllWellFormed : List Item → Prop
  | [] => True
  | item :: rest => item.WellFormed ∧ AllWellFormed rest ∧
      (item.isText = true → ∀ next ∈ rest.head?, next.isText = false)

end

mutual

def decideWellFormed : ∀ item : Item, Decidable item.WellFormed
  | text chars => inferInstanceAs (Decidable (chars ≠ [] ∧
      (∀ d : Delimiter, ¬ d.opening <:+: chars) ∧ chars.getLast? ≠ some '{'))
  | comment body => inferInstanceAs (Decidable (¬ Delimiter.comment.closing <:+: body))
  | output body => inferInstanceAs (Decidable
      (¬ Delimiter.output.closing <:+: body ∧ body.getLast? ≠ some '}'))
  | tag name args => inferInstanceAs (Decidable (IsIdentifier name ∧ name ≠ "block".toList ∧
      name ≠ "endblock".toList ∧ ∀ a ∈ args, a.WellFormed))
  | block name items =>
    have := decideAllWellFormed items
    inferInstanceAs (Decidable (IsIdentifier name ∧ AllWellFormed items))

def decideAllWellFormed : ∀ items : List Item, Decidable (AllWellFormed items)
  | [] => .isTrue trivial
  | item :: rest =>
    have := decideWellFormed item
    have := decideAllWellFormed rest
    inferInstanceAs (Decidable (item.WellFormed ∧ AllWellFormed rest ∧
      (item.isText = true → ∀ next ∈ rest.head?, next.isText = false)))

end

instance : DecidablePred AllWellFormed := decideAllWellFormed

end Item

section Lexing

variable {x y c : Char} {s body rest : List Char} {pos : Nat} {words : List Argument}

theorem splitAtFirst_wrapped (hno : ¬ [x, y] <:+: body) (hlast : x = y → body.getLast? ≠ some x) :
    splitAtFirst [x, y] (body ++ ([x, y] ++ rest)) = some (body, rest) := by
  refine splitAtFirst_append (List.cons_ne_nil x [y]) fun w hne hsuffix hstarts => ?_
  obtain ⟨front, hfront⟩ := hsuffix
  match w with
  | [] => exact hne rfl
  | [c] =>
    obtain ⟨rfl, hsame⟩ : x = c ∧ y = x := by simpa using hstarts
    exact hlast hsame.symm (by rw [← hfront, List.getLast?_concat])
  | c :: d :: w =>
    obtain ⟨rfl, rfl⟩ : x = c ∧ y = d := by simpa using hstarts
    exact hno ⟨front, w, by rw [← hfront]; simp⟩

/-- Whether a statement that begins with a text goes on behind it as if it were not there. -/
def Passes (x : List Char) : Prop :=
  ∀ s, statementBody? none (x ++ s) = (statementBody? none s).map fun p => (x ++ p.1, p.2)

theorem passes_nil : Passes [] := fun s => by simp

theorem Passes.append {u v : List Char} (hu : Passes u) (hv : Passes v) : Passes (u ++ v) := by
  intro s
  rw [List.append_assoc, hu, hv, Option.map_map]
  simp [Function.comp_def]

theorem passes_char (hquote : isQuote c = false) (hpercent : c ≠ '%') : Passes [c] := by
  intro s
  have hc : (c == '%') = false := beq_eq_false_iff_ne.2 hpercent
  cases s with
  | nil => simp [statementBody?]
  | cons d s => simp [statementBody?, hc, hquote]

theorem plain_of_inIdentifier (hc : inIdentifier c = true) : isQuote c = false ∧ c ≠ '%' := by
  refine ⟨isQuote_eq_false hc (by decide) (by decide), ?_⟩
  rintro rfl
  simp [inIdentifier, Char.isAlphanum] at hc

theorem inIdentifier_of_starts (hc : startsIdentifier c = true) : inIdentifier c = true := by
  simp only [startsIdentifier, inIdentifier, Char.isAlphanum, Bool.or_eq_true] at hc ⊢
  exact hc.imp_left .inl

theorem IsIdentifier.all (h : IsIdentifier s) : ∀ c ∈ s, inIdentifier c = true := by
  obtain ⟨c, rest, rfl, hc, hrest⟩ := h
  exact List.forall_mem_cons.2 ⟨inIdentifier_of_starts hc, hrest⟩

theorem passes_chars (h : ∀ c ∈ s, isQuote c = false ∧ c ≠ '%') : Passes s := by
  induction s with
  | nil => exact passes_nil
  | cons c s ih =>
    obtain ⟨⟨hquote, hpercent⟩, hs⟩ := List.forall_mem_cons.1 h
    exact (passes_char hquote hpercent).append (ih hs)

theorem passes_identifier (h : ∀ c ∈ s, inIdentifier c = true) : Passes s :=
  passes_chars fun c hc => plain_of_inIdentifier (h c hc)

theorem statementBody?_inside {q : Char} (hc : c ≠ '\\') :
    statementBody? (some q) (c :: s) =
      (statementBody? (if c == q then none else some q) s).map fun p => (c :: p.1, p.2) := by
  rw [statementBody?.eq_def]
  simp [hc]

theorem statementBody?_upToQuote {q : Char} (hq : isQuote q = true) (hslash : '\\' ∉ s)
    (hno : q ∉ s) (rest : List Char) :
    statementBody? (some q) (s ++ q :: rest) =
      (statementBody? none rest).map fun p => (s ++ q :: p.1, p.2) := by
  induction s with
  | nil =>
    have hne : q ≠ '\\' := by
      rintro rfl
      cases hq
    rw [List.nil_append, statementBody?_inside hne, beq_self_eq_true]
    rfl
  | cons c s ih =>
    -- Between the quotes no terminator counts.
    rw [List.mem_cons, not_or] at hslash hno
    have hcq : (c == q) = false := beq_eq_false_iff_ne.2 (Ne.symm hno.1)
    rw [List.cons_append, statementBody?_inside (Ne.symm hslash.1), hcq]
    simp [ih hslash.2 hno.2, Function.comp_def]

theorem passes_string {q : Char} (hq : isQuote q = true) (hslash : '\\' ∉ s) (hno : q ∉ s) :
    Passes (q :: (s ++ [q])) := by
  intro rest
  have hpercent : (q == '%') = false := by
    rw [beq_eq_false_iff_ne]
    rintro rfl
    cases hq
  have hentered : ∀ d t, statementBody? none (q :: d :: t) =
      (statementBody? (some q) (d :: t)).map fun p => (q :: p.1, p.2) := by
    intro d t
    simp [statementBody?, hpercent, hq]
  have hrest := statementBody?_upToQuote hq hslash hno rest
  cases hs : s ++ q :: rest with
  | nil => simp at hs
  | cons d t =>
    rw [hs] at hrest
    rw [List.cons_append, List.append_assoc, List.singleton_append, hs, hentered, hrest,
      Option.map_map]
    simp [Function.comp_def]

theorem Argument.WellFormed.passes {a : Argument} (h : a.WellFormed) : Passes a.chars := by
  cases a with
  | identifier name => exact passes_identifier h.all
  | string quote inside => exact passes_string h.1 h.2.1 h.2.2

theorem passes_statementOf (h : ∀ a ∈ words, a.WellFormed) : Passes (statementOf words) := by
  have hblank : Passes [' '] := passes_char rfl (by decide)
  induction words with
  | nil => exact hblank
  | cons word words ih =>
    obtain ⟨hword, hwords⟩ := List.forall_mem_cons.1 h
    exact hblank.append (hword.passes.append (ih hwords))

theorem statementBody?_statementOf (h : ∀ a ∈ words, a.WellFormed) (rest : List Char) :
    statementBody? none (statementOf words ++ (['%', '}'] ++ rest)) =
      some (statementOf words, rest) := by
  have hend : statementBody? none ('%' :: '}' :: rest) = some ([], rest) := by
    simp [statementBody?]
  have hpasses := passes_statementOf h ('%' :: '}' :: rest)
  rw [hend] at hpasses
  simpa using hpasses

theorem quoted_wrapped {q : Char} (hslash : '\\' ∉ s) (hno : q ∉ s) (rest : List Char) :
    quoted q (s ++ q :: rest) = (s ++ [q], rest) := by
  induction s with
  | nil =>
    rw [List.nil_append, quoted.eq_def]
    simp
  | cons c s ih =>
    rw [List.mem_cons, not_or] at hslash hno
    have hc : (c == '\\') = false := beq_eq_false_iff_ne.2 (Ne.symm hslash.1)
    have hcq : (c == q) = false := beq_eq_false_iff_ne.2 (Ne.symm hno.1)
    rw [List.cons_append, quoted.eq_def]
    simp [hc, hcq, ih hslash.2 hno.2]

theorem isGap_of_isQuote {q : Char} (hq : isQuote q = true) : isGap q = false := by
  simp only [isQuote, Bool.or_eq_true, beq_iff_eq] at hq
  rcases hq with rfl | rfl <;> rfl

theorem starts_not_gap (hc : startsIdentifier c = true) : isGap c = false := by
  by_contra h
  simp only [isGap, isAsciiBlank, Bool.not_eq_false, Bool.or_eq_true, beq_iff_eq] at h
  rcases h with ((((rfl | rfl) | rfl) | rfl) | rfl) | rfl <;> cases hc

theorem tokenize_identifier {rest : List Char} (h : IsIdentifier s)
    (hrest : ∀ d ∈ rest.head?, inIdentifier d = false) :
    tokenize pos (s ++ rest) = ⟨.identifier, pos, s⟩ :: tokenize (pos + byteLength s) rest := by
  obtain ⟨c, tail, rfl, hc, htail⟩ := h
  have hquote := (plain_of_inIdentifier (inIdentifier_of_starts hc)).1
  obtain ⟨htake, hdrop⟩ := takeWhile_run htail rest hrest
  rw [List.cons_append, tokenize, starts_not_gap hc, hquote, hc]
  simp only [Bool.false_eq_true, if_false, if_true, htake, hdrop]
  rfl

theorem tokenize_word {a : Argument} (h : a.WellFormed) (rest : List Char) :
    tokenize pos (a.chars ++ ' ' :: rest) =
      ⟨a.tokenKind, pos, a.chars⟩ :: tokenize (pos + byteLength a.chars) (' ' :: rest) := by
  cases a with
  | identifier name => exact tokenize_identifier h (forall_mem_head?_cons (by decide))
  | string quote inside =>
    obtain ⟨hq, hslash, hno⟩ := h
    have hquoted := quoted_wrapped hslash hno (' ' :: rest)
    simp only [Argument.chars, List.cons_append, List.append_assoc, List.nil_append]
    rw [tokenize, isGap_of_isQuote hq, hq]
    simp only [Bool.false_eq_true, if_false, if_true, hquoted]
    rfl

theorem statementOf_eq_cons (words : List Argument) : ∃ s, statementOf words = ' ' :: s := by
  cases words with
  | nil => exact ⟨[], rfl⟩
  | cons word words => exact ⟨_, rfl⟩

theorem tokenize_statementOf (h : ∀ a ∈ words, a.WellFormed) :
    tokenize pos (statementOf words) = tokensOf pos words := by
  have hgap : ∀ (pos : Nat) (s : List Char), tokenize pos (' ' :: s) = tokenize (pos + 1) s := by
    intro pos s
    rw [tokenize]
    rfl
  induction words generalizing pos with
  | nil => rw [statementOf, hgap, tokenize, tokensOf]
  | cons word words ih =>
    obtain ⟨hword, hwords⟩ := List.forall_mem_cons.1 h
    obtain ⟨s, hs⟩ := statementOf_eq_cons words
    rw [statementOf, hgap, hs, tokenize_word hword, ← hs, ih hwords]
    rfl

end Lexing

section Cuts

variable {rest : List Char} {segs : List Segment} {body : List Char}

/-- A piece between delimiters is a segment if its own terminator is the first. -/
theorem cuts_wrap (d : Delimiter)
    (hbody : terminator? d (body ++ (d.closing ++ rest)) = some (body, rest))
    (h : Cuts rest segs) : Cuts (d.wrap body ++ rest) (d.segment body true :: segs) := by
  have hfinds := finds_terminator? d (body ++ (d.closing ++ rest))
  rw [hbody] at hfinds
  have hcuts := Cuts.terminated d hfinds h
  rw [Delimiter.wrap, List.append_assoc, List.append_assoc]
  exact hcuts

theorem opening_wrap (d : Delimiter) (body rest : List Char) : d.opening <+: d.wrap body ++ rest := by
  rw [Delimiter.wrap, List.append_assoc]
  exact List.prefix_append ..

theorem cuts_statement {words : List Argument} (h : ∀ a ∈ words, a.WellFormed)
    (hrest : Cuts rest segs) :
    Cuts (Delimiter.statement.wrap (statementOf words) ++ rest)
      (.statement (statementOf words) true :: segs) :=
  cuts_wrap .statement (statementBody?_statementOf h rest) hrest

theorem cuts_chars {chars : List Char} (hne : chars ≠ [])
    (hno : ∀ d : Delimiter, ¬ d.opening <:+: chars) (hlast : chars.getLast? ≠ some '{')
    (hnext : rest = [] ∨ ∃ d : Delimiter, d.opening <+: rest) (h : Cuts rest segs) :
    Cuts (chars ++ rest) (.text chars :: segs) := by
  refine .text hne (fun u c v hsplit d hopens => ?_) hnext h
  subst hsplit
  cases v with
  | nil =>
    -- the delimiter would begin with the last character
    have hc : c = '{' := by
      obtain ⟨tail, htail⟩ := hopens
      cases d <;> exact (List.cons.inj htail).1.symm
    exact hlast (by rw [hc, List.getLast?_concat])
  | cons e v =>
    apply hno d
    have hpair : d.opening = [c, e] := by
      obtain ⟨tail, htail⟩ := hopens
      have hsplit : d.opening ++ tail = [c, e] ++ (v ++ rest) := htail
      have hlength : d.opening.length = [c, e].length := by cases d <;> rfl
      exact (List.append_inj hsplit hlength).1
    exact ⟨u, v, by rw [hpair]; simp⟩

namespace Item

theorem wellFormed_words {name : List Char} (hname : IsIdentifier name) :
    ∀ a ∈ blockWords name, a.WellFormed := by
  have hblock : IsIdentifier "block".toList := by decide
  rw [blockWords, List.forall_mem_cons, List.forall_mem_singleton]
  exact ⟨hblock, hname⟩

theorem wellFormed_endWords : ∀ a ∈ endWords, a.WellFormed := by
  rw [endWords, List.forall_mem_singleton]
  exact show IsIdentifier "endblock".toList by decide

theorem wellFormed_tagWords {name : List Char} {args : List Argument} (hname : IsIdentifier name)
    (hargs : ∀ a ∈ args, a.WellFormed) : ∀ a ∈ tagWords name args, a.WellFormed :=
  List.forall_mem_cons.2 ⟨hname, hargs⟩

theorem opening_render {item : Item} (h : item.isText = false) (rest : List Char) :
    ∃ d : Delimiter, d.opening <+: item.render ++ rest := by
  cases item with
  | text chars => cases h
  | comment body =>
    rw [render]
    exact ⟨_, opening_wrap ..⟩
  | output body =>
    rw [render]
    exact ⟨_, opening_wrap ..⟩
  | tag name args =>
    rw [render]
    exact ⟨_, opening_wrap ..⟩
  | block name items =>
    rw [render, List.append_assoc]
    exact ⟨_, opening_wrap ..⟩

mutual

theorem cuts_render : ∀ (item : Item) {rest : List Char} {segs : List Segment}, item.WellFormed →
    (item.isText = true → rest = [] ∨ ∃ d : Delimiter, d.opening <+: rest) → Cuts rest segs →
      Cuts (item.render ++ rest) (item.segments ++ segs)
  | .text chars, rest, segs, hitem, hnext, hrest => by
    rw [WellFormed] at hitem
    rw [render, segments]
    exact cuts_chars hitem.1 hitem.2.1 hitem.2.2 (hnext rfl) hrest
  | .comment body, rest, segs, hitem, hnext, hrest => by
    rw [WellFormed] at hitem
    rw [render, segments]
    exact cuts_wrap .comment (splitAtFirst_wrapped hitem (by simp)) hrest
  | .output body, rest, segs, hitem, hnext, hrest => by
    rw [WellFormed] at hitem
    rw [render, segments]
    exact cuts_wrap .output (splitAtFirst_wrapped hitem.1 fun _ => hitem.2) hrest
  | .tag name args, rest, segs, hitem, hnext, hrest => by
    rw [WellFormed] at hitem
    rw [render, segments]
    exact cuts_statement (wellFormed_tagWords hitem.1 hitem.2.2.2) hrest
  | .block name items, rest, segs, hitem, hnext, hrest => by
    rw [WellFormed] at hitem
    have hend := cuts_statement wellFormed_endWords hrest
    have hitems := cuts_renderAll items hitem.2 (.inr ⟨_, opening_wrap ..⟩) hend
    rw [render, segments, List.append_assoc, List.append_assoc, List.cons_append,
      List.append_assoc]
    exact cuts_statement (wellFormed_words hitem.1) hitems

theorem cuts_renderAll : ∀ (items : List Item) {rest : List Char} {segs : List Segment},
    AllWellFormed items → (rest = [] ∨ ∃ d : Delimiter, d.opening <+: rest) → Cuts rest segs →
      Cuts (renderAll items ++ rest) (segmentsAll items ++ segs)
  | [], rest, segs, _, _, hrest => by
    rw [renderAll, segmentsAll]
    exact hrest
  | item :: items, rest, segs, hitems, hnext, hrest => by
    rw [AllWellFormed] at hitems
    obtain ⟨hitem, hrestItems, hapart⟩ := hitems
    rw [renderAll, segmentsAll, List.append_assoc, List.append_assoc]
    refine cuts_render item hitem (fun htext => ?_) (cuts_renderAll items hrestItems hnext hrest)
    cases items with
    | nil =>
      rw [renderAll]
      exact hnext
    | cons next items =>
      rw [renderAll, List.append_assoc]
      exact .inr (opening_render (hapart htext next rfl) _)

end

theorem cut_renderAll {items : List Item} (h : AllWellFormed items) :
    cut (renderAll items) = segmentsAll items := by
  have hcuts := cuts_renderAll items h (.inl rfl) .done
  rw [List.append_nil, List.append_nil] at hcuts
  exact hcuts.eq_cut.symm

end Item
end Cuts
end ProjectIndex.Twig
