import ProjectIndex.Text.Blank
import ProjectIndex.Text.Bytes
import ProjectIndex.Grammar.Twig.Segment

/-! The tokens of a statement: identifiers, quoted strings, and single other characters. ASCII blanks
and hyphens separate them and are dropped. -/
namespace ProjectIndex.Twig

inductive TokenKind where
  | identifier
  | string
  | other
deriving DecidableEq, Inhabited, Repr

structure Token where
  kind : TokenKind
  start : Nat
  chars : List Char
deriving DecidableEq, Inhabited, Repr

def Token.stop (t : Token) : Nat := t.start + Text.byteLength t.chars

def Token.isIdentifier (t : Token) : Bool := t.kind == .identifier

def isGap (c : Char) : Bool := Text.isAsciiBlank c || c == '-'

def startsIdentifier (c : Char) : Bool := c.isAlpha || c == '_'

def inIdentifier (c : Char) : Bool := c.isAlphanum || c == '_'

def quoted (q : Char) : List Char → List Char × List Char
  | [] => ([], [])
  | c :: s =>
    if c == q then ([c], s)
    else if c == '\\' then
      match s with
      | [] => ([c], [])
      | d :: s =>
        let r := quoted q s
        (c :: d :: r.1, r.2)
    else
      let r := quoted q s
      (c :: r.1, r.2)

theorem length_quoted (q : Char) (s : List Char) : (quoted q s).2.length ≤ s.length := by
  fun_induction quoted q s <;> simp_all +zetaDelta <;> omega

theorem length_dropWhile_le (p : Char → Bool) (s : List Char) : (s.dropWhile p).length ≤ s.length :=
  (List.dropWhile_sublist p).length_le

/-- The tokens of a text whose first byte stands at `pos`. -/
def tokenize (pos : Nat) : List Char → List Token
  | [] => []
  | c :: s =>
    if isGap c then tokenize (pos + c.utf8Size) s
    else if isQuote c then
      let token : Token := ⟨.string, pos, c :: (quoted c s).1⟩
      token :: tokenize token.stop (quoted c s).2
    else if startsIdentifier c then
      let token : Token := ⟨.identifier, pos, c :: s.takeWhile inIdentifier⟩
      token :: tokenize token.stop (s.dropWhile inIdentifier)
    else ⟨.other, pos, [c]⟩ :: tokenize (pos + c.utf8Size) s
termination_by s => s.length
decreasing_by
  · simp
  · have := length_quoted c s; simp only [List.length_cons]; omega
  · have := length_dropWhile_le inIdentifier s; simp only [List.length_cons]; omega
  · simp

end ProjectIndex.Twig
