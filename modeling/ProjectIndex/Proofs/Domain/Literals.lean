import ProjectIndex.Domain.Literal
import ProjectIndex.Grammar.Json
import ProjectIndex.Grammar.Script.Tree
import ProjectIndex.Proofs.Grammar.Quoted
import ProjectIndex.Proofs.Text.Search

/-!
What is read of a quoted literal. The first run of plain text is taken for the whole value. So a
literal is read in full exactly when it does not have both plain text and escapes; any other one is
cut down to the first of its runs.
-/
namespace ProjectIndex

open ProjectIndex.Text

def isFragment (kind : String) : Bool := kind == "string_fragment" || kind == "string_content"

section Unquote

variable {q : Char}

theorem IsQuote.not_blank (h : IsQuote q) : isBlank q = false := by
  rcases h with rfl | rfl | rfl <;> rfl

theorem unquote_between (h : IsQuote q) (s : List Char) : unquote (q :: (s ++ [q])) = s := by
  have hblank := h.not_blank
  have htrim : trim (q :: (s ++ [q])) = q :: (s ++ [q]) := by
    simp [trim, trimBoth, trimStart, trimEnd, hblank]
  have hsame : ((dropStart? [q] (q :: (s ++ [q]))).bind fun rest => dropEnd? [q] rest) = some s := by
    have hopen : dropStart? [q] (q :: (s ++ [q])) = some (s ++ [q]) := dropStart?_append [q] _
    rw [hopen, Option.bind_some, dropEnd?_append]
  have hother : ∀ c : Char, c ≠ q →
      ((dropStart? [c] (q :: (s ++ [q]))).bind fun rest => dropEnd? [c] rest) = none := by
    intro c hc
    have hno : [c].isPrefixOf (q :: (s ++ [q])) = false := by simp [List.isPrefixOf, hc]
    rw [dropStart?, hno]
    rfl
  rw [unquote, htrim]
  -- the quotes in front of `q` are looked for first, in vain
  rcases h with rfl | rfl | rfl
  · rw [List.findSome?_cons, hsame]
    rfl
  · rw [List.findSome?_cons, hother '"' (by decide), List.findSome?_cons, hsame]
    rfl
  · rw [List.findSome?_cons, hother '"' (by decide), List.findSome?_cons, hother '\'' (by decide),
      List.findSome?_cons, hsame]
    rfl

end Unquote

section Reading

variable {t : SyntaxTree} {src : Source} {i : NodeId} {fragment : String} {l : Literal}

theorem IsQuote.isFragment_eq {c : Char} (h : IsQuote c) :
    isFragment (String.singleton c) = false := by
  rcases h with rfl | rfl | rfl <;> decide

theorem isFragment_escape : isFragment "escape_sequence" = false := by decide

theorem find?_literalParts (hfragment : isFragment fragment = true) {c : Char} (hc : IsQuote c)
    (parts : List LiteralPart) :
    ((parts.map (fun part => (part.kind fragment, part.chars)) ++
      [(String.singleton c, [c])]).find? fun n => isFragment n.1).map Prod.snd =
      parts.findSome? LiteralPart.plain? := by
  induction parts with
  | nil =>
    rw [List.map_nil, List.nil_append, List.find?_cons, hc.isFragment_eq]
    rfl
  | cons part parts ih =>
    rw [List.map_cons, List.cons_append, List.find?_cons, List.findSome?_cons]
    cases part with
    | plain s =>
      rw [LiteralPart.kind, hfragment]
      rfl
    | escape s =>
      rw [LiteralPart.kind, isFragment_escape]
      exact ih

theorem Literal.find?_nodes (l : Literal) (hfragment : isFragment fragment = true) :
    ((l.nodes fragment).find? fun n => isFragment n.1).map Prod.snd = l.content.firstPlain? := by
  rw [Literal.nodes, List.find?_cons, l.isQuote.isFragment_eq]
  exact find?_literalParts hfragment l.isQuote l.content.parts

/-- What is read of a literal: its first run of plain text, or all of it if there is none. -/
theorem SyntaxTree.Spells.stringLiteral_eq (hfragment : isFragment fragment = true)
    (h : t.Spells src i fragment l) :
    stringLiteral t src i = l.content.firstPlain?.getD l.content.chars := by
  have hfound : ((t.children i).find? fun c => isFragment (t.kind c)).map (t.text src) =
      l.content.firstPlain? := by
    rw [← l.find?_nodes hfragment, ← h.children_eq, List.find?_map, Option.map_map]
    rfl
  rw [stringLiteral]
  split
  · next c hfind =>
    have hfirst : ((t.children i).find? fun c => isFragment (t.kind c)) = some c := hfind
    rw [hfirst, Option.map_some] at hfound
    rw [← hfound]
    rfl
  · next hfind =>
    have hfirst : ((t.children i).find? fun c => isFragment (t.kind c)) = none := hfind
    rw [hfirst, Option.map_none] at hfound
    rw [← hfound, h.text_eq]
    exact unquote_between l.isQuote l.content.chars

end Reading

/-- A literal is read as its first run of plain text, or as a whole if it has none. That is the text
between its quotes exactly if it does not mix plain text with escapes. -/
theorem literal_read_whole_iff_unmixed {t : SyntaxTree} {src : Source} {i : NodeId}
    {fragment : String} {l : Literal} (hfragment : isFragment fragment = true)
    (h : t.Spells src i fragment l) :
    stringLiteral t src i = l.content.firstPlain?.getD l.content.chars ∧
      (stringLiteral t src i = l.content.chars ↔ l.content.Unmixed) := by
  have hread := h.stringLiteral_eq hfragment
  refine ⟨hread, ?_⟩
  rw [hread]
  exact LiteralText.firstPlain?_getD_eq_chars

/-- A quote that is escaped, between two letters. -/
def quotedQuote : Literal where
  quote := '\''
  isQuote := by decide
  content :=
    { parts := [.plain ['x'], .escape ['\\', '\''], .plain ['y']]
      nonempty := by decide
      maximal := by decide }

theorem literal_read_whole_iff_unmixed_quotedQuote :
    let src := "'x\\'y';".toList
    let t := Script.parse src
    t.Spells src 2 "string_fragment" quotedQuote ∧
      stringLiteral t src 2 = quotedQuote.content.firstPlain?.getD quotedQuote.content.chars ∧
      (stringLiteral t src 2 = quotedQuote.content.chars ↔ quotedQuote.content.Unmixed) := by
  intro src t
  have hspells : t.Spells src 2 "string_fragment" quotedQuote :=
    ⟨by decide +kernel, by decide +kernel⟩
  exact ⟨hspells, literal_read_whole_iff_unmixed (by decide) hspells⟩

def brokenLine : Literal where
  quote := '"'
  isQuote := by decide
  content :=
    { parts := [.plain ['x'], .escape ['\\', 'n'], .plain ['y']]
      nonempty := by decide
      maximal := by decide }

/-- The text of a member ends at its first escape. -/
theorem literal_is_cut_at_escape :
    let src := "\x7b\"a\": \"x\\ny\"\x7d".toList
    let t := Json.parse src
    t.Spells src 9 "string_content" brokenLine ∧ stringLiteral t src 9 = ['x'] ∧
      brokenLine.content.chars = ['x', '\\', 'n', 'y'] ∧
      stringLiteral t src 9 ≠ brokenLine.content.chars := by
  intro src t
  have hspells : t.Spells src 9 "string_content" brokenLine :=
    ⟨by decide +kernel, by decide +kernel⟩
  have hread : stringLiteral t src 9 = ['x'] := by decide +kernel
  have hinside : brokenLine.content.chars = ['x', '\\', 'n', 'y'] := rfl
  refine ⟨hspells, hread, hinside, ?_⟩
  rw [hread, hinside]
  decide

end ProjectIndex
