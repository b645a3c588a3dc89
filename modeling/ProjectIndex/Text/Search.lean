/-! Looking for one text inside another, and cutting a text at what was found. -/
namespace ProjectIndex.Text

def splitAtFirst (needle : List Char) : List Char → Option (List Char × List Char)
  | [] => if needle.isEmpty then some ([], []) else none
  | c :: s =>
    if needle.isPrefixOf (c :: s) then some ([], (c :: s).drop needle.length)
    else (splitAtFirst needle s).map fun p => (c :: p.1, p.2)

def contains (s needle : List Char) : Bool := (splitAtFirst needle s).isSome

def dropStart? (start s : List Char) : Option (List Char) :=
  if start.isPrefixOf s then some (s.drop start.length) else none

def dropEnd? (stop s : List Char) : Option (List Char) :=
  (dropStart? stop.reverse s.reverse).map List.reverse

def endsWith (s stop : List Char) : Bool := (dropEnd? stop s).isSome

/-- The parts of `s` between the occurrences of `sep`; never empty. -/
def splitOn (sep : Char) : List Char → List (List Char)
  | [] => [[]]
  | c :: s =>
    match splitOn sep s with
    | [] => [[]]
    | part :: parts => if c == sep then [] :: part :: parts else (c :: part) :: parts

def joinWith (sep : List Char) : List (List Char) → List Char
  | [] => []
  | [part] => part
  | part :: parts => part ++ sep ++ joinWith sep parts

def lowerAscii (s : List Char) : List Char := s.map Char.toLower

end ProjectIndex.Text
