import ProjectIndex.Text.Search

/-! Repeated search in a text: the matches of a reader, left to right, none overlapping another. -/
namespace ProjectIndex.Text

/-- Tries a reader at every place, going on behind each match. `matchAt` reads from the head of the
text and returns what is left. -/
def scanFrom {α : Type} (matchAt : List Char → Option (α × List Char)) : Nat → List Char → List α
  | 0, _ => []
  | _ + 1, [] => []
  | fuel + 1, c :: s =>
    match matchAt (c :: s) with
    | some (a, rest) => a :: scanFrom matchAt fuel rest
    | none => scanFrom matchAt fuel s

def scanAll {α : Type} (matchAt : List Char → Option (α × List Char)) (s : List Char) : List α :=
  scanFrom matchAt s.length s

def run? (p : Char → Bool) (s : List Char) : Option (List Char × List Char) :=
  let r := s.takeWhile p
  if r.isEmpty then none else some (r, s.dropWhile p)

/-- The lines of a text. A line feed ends a line, and a carriage return before it belongs to it. -/
def lines (s : List Char) : List (List Char) :=
  let parts := splitOn '\n' s
  let ended := parts.dropLast.map fun l => (dropEnd? ['\r'] l).getD l
  match parts.getLast? with
  | some [] => ended
  | some l => ended ++ [l]
  | none => ended

end ProjectIndex.Text
