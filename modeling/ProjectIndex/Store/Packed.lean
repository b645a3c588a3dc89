import ProjectIndex.Path.Basic

/-!
Records as they are kept in a file. A record is packed into numbers, texts and lists. A number ends
with a semicolon, a text follows its length, and a list stands in brackets, so nothing needs to be
escaped.
-/
namespace ProjectIndex

inductive Packed where
  | number (n : Int)
  | text (s : List Char)
  | list (items : List Packed)
deriving Inhabited, Repr

namespace Packed

def writeInt : Int → List Char
  | .ofNat n => Nat.toDigits 10 n
  | .negSucc n => '-' :: Nat.toDigits 10 (n + 1)

mutual

def write : Packed → List Char
  | .number n => '#' :: writeInt n ++ [';']
  | .text s => Nat.toDigits 10 s.length ++ ':' :: s
  | .list items => '[' :: writeItems items ++ [']']

def writeItems : List Packed → List Char
  | [] => []
  | v :: vs => write v ++ writeItems vs

end

def readNat? (mark : Char) (s : List Char) : Option (Nat × List Char) :=
  let digits := s.takeWhile Char.isDigit
  match s.dropWhile Char.isDigit with
  | c :: rest =>
    if c = mark && !digits.isEmpty then
      some (digits.foldl (fun v d => v * 10 + (d.toNat - '0'.toNat)) 0, rest)
    else none
  | [] => none

def readLeaf? : List Char → Option (Packed × List Char)
  | '#' :: '-' :: s => (readNat? ';' s).map fun r => (.number (-(r.1 : Int)), r.2)
  | '#' :: s => (readNat? ';' s).map fun r => (.number r.1, r.2)
  | s => (readNat? ':' s).map fun r => (.text (r.2.take r.1), r.2.drop r.1)

/-- Reads on inside the lists that are open, innermost first, each with its items so far in reverse.
Every step reads at least one character, so there are no more steps than characters. -/
def readFrom : Nat → List (List Packed) → List Char → Option Packed
  | 0, _, _ => none
  | steps + 1, lists, '[' :: s => readFrom steps ([] :: lists) s
  | _ + 1, [items], [']'] => some (.list items.reverse)
  | steps + 1, items :: outer :: lists, ']' :: s =>
    readFrom steps ((.list items.reverse :: outer) :: lists) s
  | steps + 1, items :: lists, s =>
    match readLeaf? s with
    | some (v, rest) => readFrom steps ((v :: items) :: lists) rest
    | none => none
  | _ + 1, [], _ => none

def read? (s : List Char) : Option Packed := readFrom s.length [] s

end Packed

class Packable (α : Type) where
  pack : α → Packed
  unpack? : Packed → Option α

namespace Packable

variable {α β : Type}

@[reducible]
def via [Packable β] (forth : α → β) (back : β → α) : Packable α where
  pack a := pack (forth a)
  unpack? p := (unpack? p).map back

instance : Packable Int where
  pack := .number
  unpack?
    | .number n => some n
    | _ => none

instance : Packable Nat where
  pack n := .number n
  unpack?
    | .number (.ofNat n) => some n
    | _ => none

instance : Packable Bool where
  pack b := .number (if b then 1 else 0)
  unpack?
    | .number n => if n = 1 then some true else if n = 0 then some false else none
    | _ => none

instance : Packable String where
  pack s := .text s.toList
  unpack?
    | .text s => some (String.ofList s)
    | _ => none

instance : Packable Path where
  pack p := .text p.text
  unpack?
    | .text s => some ⟨s⟩
    | _ => none

instance [Packable α] : Packable (Option α) where
  pack
    | some a => .list [pack a]
    | none => .list []
  unpack?
    | .list [p] => (unpack? p).map some
    | .list [] => some none
    | _ => none

instance [Packable α] : Packable (List α) where
  pack as := .list (as.map pack)
  unpack?
    | .list ps => ps.mapM unpack?
    | _ => none

instance [Packable α] [Packable β] : Packable (α × β) where
  pack p := .list [pack p.1, pack p.2]
  unpack?
    | .list [p, q] => (unpack? p).bind fun a => (unpack? q).map fun b => (a, b)
    | _ => none

end Packable
end ProjectIndex
