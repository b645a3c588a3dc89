import ProjectIndex.Text.Search

/-!
A Twig source as a list of segments: literal text, comments, outputs and statements. A comment or
output ends at its first terminator; a statement at the first terminator outside quotes, where a
backslash inside quotes takes the next character with it. What is never terminated runs to the end.
-/
namespace ProjectIndex.Twig

inductive Segment where
  | text (chars : List Char)
  | comment (body : List Char) (closed : Bool)
  | output (body : List Char) (closed : Bool)
  | statement (body : List Char) (closed : Bool)
deriving DecidableEq, Inhabited, Repr

def Segment.chars : Segment → List Char
  | .text chars => chars
  | .comment body closed => '{' :: '#' :: body ++ if closed then ['#', '}'] else []
  | .output body closed => '{' :: '{' :: body ++ if closed then ['}', '}'] else []
  | .statement body closed => '{' :: '%' :: body ++ if closed then ['%', '}'] else []

def opens : List Char → Bool
  | '{' :: c :: _ => c == '{' || c == '%' || c == '#'
  | _ => false

def textRun : List Char → List Char × List Char
  | [] => ([], [])
  | c :: s =>
    if opens (c :: s) then ([], c :: s)
    else
      let r := textRun s
      (c :: r.1, r.2)

def isQuote (c : Char) : Bool := c == '\'' || c == '"'

/-- The body of a statement and the rest behind its terminator, inside the given quote. -/
def statementBody? : Option Char → List Char → Option (List Char × List Char)
  | _, [] => none
  | none, [_] => none
  | none, c :: d :: s =>
    if c == '%' && d == '}' then some ([], s)
    else (statementBody? (if isQuote c then some c else none) (d :: s)).map fun p => (c :: p.1, p.2)
  | some q, c :: s =>
    if c == '\\' then
      match s with
      | [] => none
      | d :: s => (statementBody? (some q) s).map fun p => (c :: d :: p.1, p.2)
    else (statementBody? (if c == q then none else some q) s).map fun p => (c :: p.1, p.2)

theorem length_textRun (s : List Char) : (textRun s).2.length ≤ s.length := by
  induction s with
  | nil => simp [textRun]
  | cons c s ih =>
    simp only [textRun]
    split
    · exact Nat.le_refl _
    · simp only [List.length_cons]; omega

theorem length_splitAtFirst {needle s a b : List Char} (h : Text.splitAtFirst needle s = some (a, b)) :
    b.length ≤ s.length := by
  induction s generalizing a with
  | nil =>
    simp only [Text.splitAtFirst] at h
    split at h <;> simp_all
  | cons c s ih =>
    simp only [Text.splitAtFirst] at h
    split at h
    · simp only [Option.some.injEq, Prod.mk.injEq] at h
      rw [← h.2, List.length_drop]; omega
    · obtain ⟨p, hp, hq⟩ := Option.map_eq_some_iff.1 h
      simp only [Prod.mk.injEq] at hq
      have := ih (a := p.1) (by rw [hp, ← hq.2])
      simp only [List.length_cons]; omega

theorem length_statementBody {q : Option Char} {s a b : List Char}
    (h : statementBody? q s = some (a, b)) : b.length ≤ s.length := by
  fun_induction statementBody? q s generalizing a with
  | case1 => simp at h
  | case2 => simp at h
  | case3 => simp_all; omega
  | case4 c d s _ ih =>
    obtain ⟨p, hp, hq⟩ := Option.map_eq_some_iff.1 h
    simp only [Prod.mk.injEq] at hq
    have := ih (a := p.1) (by rw [hp, ← hq.2])
    simp only [List.length_cons] at this ⊢; omega
  | case5 => simp at h
  | case6 q c _ d s ih =>
    obtain ⟨p, hp, hq⟩ := Option.map_eq_some_iff.1 h
    simp only [Prod.mk.injEq] at hq
    have := ih (a := p.1) (by rw [hp, ← hq.2])
    simp only [List.length_cons] at this ⊢; omega
  | case7 q c s _ ih =>
    obtain ⟨p, hp, hq⟩ := Option.map_eq_some_iff.1 h
    simp only [Prod.mk.injEq] at hq
    have := ih (a := p.1) (by rw [hp, ← hq.2])
    simp only [List.length_cons] at this ⊢; omega

/-- Cuts a source into segments, left to right. -/
def cut : List Char → List Segment
  | [] => []
  | c :: s =>
    if opens (c :: s) then
      match s with
      | [] => []
      | d :: s =>
        if d == '#' then
          match _h : Text.splitAtFirst ['#', '}'] s with
          | some (body, rest) => .comment body true :: cut rest
          | none => [.comment s false]
        else if d == '{' then
          match _h : Text.splitAtFirst ['}', '}'] s with
          | some (body, rest) => .output body true :: cut rest
          | none => [.output s false]
        else
          match _h : statementBody? none s with
          | some (body, rest) => .statement body true :: cut rest
          | none => [.statement s false]
    else .text (c :: (textRun s).1) :: cut (textRun s).2
termination_by s => s.length
decreasing_by
  · have := length_splitAtFirst _h; simp only [List.length_cons]; omega
  · have := length_splitAtFirst _h; simp only [List.length_cons]; omega
  · have := length_statementBody _h; simp only [List.length_cons]; omega
  · have := length_textRun s; simp only [List.length_cons]; omega

end ProjectIndex.Twig
