import ProjectIndex.Failure
import ProjectIndex.Text.Utf8

/-!
The plugin class in a `composer.json`. The file is read strictly: it must be one JSON value and
nothing else. Values nobody asks for may hold any string, well-formed text or not.
-/
namespace ProjectIndex.Composer

/-- A JSON value as far as it matters here: numbers are dropped, and a string or name that is no
well-formed text is `none`. -/
inductive Value where
  | null
  | bool (b : Bool)
  | number
  | string (s : Option (List Char))
  | array (items : List Value)
  | object (members : List (Option (List Char) × Value))
deriving Inhabited

abbrev Bytes := List UInt8

def isSpace (b : UInt8) : Bool := b == 32 || b == 9 || b == 10 || b == 13

def skipSpace (bs : Bytes) : Bytes := bs.dropWhile isSpace

def isDigit (b : UInt8) : Bool := 48 ≤ b && b ≤ 57

def byte? (c : Char) : Bytes → Option Bytes
  | b :: bs => if b.toNat = c.toNat then some bs else none
  | [] => none

def hexValue? (b : UInt8) : Option Nat :=
  if 48 ≤ b && b ≤ 57 then some (b.toNat - 48)
  else if 97 ≤ b && b ≤ 102 then some (b.toNat - 87)
  else if 65 ≤ b && b ≤ 70 then some (b.toNat - 55)
  else none

def hex4? : Bytes → Option (Nat × Bytes)
  | a :: b :: c :: d :: rest => do
    some (((← hexValue? a) * 16 + (← hexValue? b)) * 256 + (← hexValue? c) * 16 + (← hexValue? d),
      rest)
  | _ => none

def escapeByte? (b : UInt8) : Option UInt8 :=
  match Char.ofNat b.toNat with
  | '"' => some 34
  | '\\' => some 92
  | '/' => some 47
  | 'b' => some 8
  | 'f' => some 12
  | 'n' => some 10
  | 'r' => some 13
  | 't' => some 9
  | _ => none

/-- The code behind `\u`; a high surrogate takes the low one that must follow. A lone surrogate has
no character. -/
def unicodeEscape? (bs : Bytes) : Option (Option Char × Bytes) := do
  let (high, rest) ← hex4? bs
  if 0xD800 ≤ high && high < 0xDC00 then
    match rest with
    | 92 :: 117 :: more =>
      let (low, rest) ← hex4? more
      if 0xDC00 ≤ low && low < 0xE000 then
        some (some (Char.ofNat (0x10000 + (high - 0xD800) * 1024 + (low - 0xDC00))), rest)
      else some (none, rest)
    | _ => some (none, rest)
  else if 0xDC00 ≤ high && high < 0xE000 then some (none, rest)
  else some (some (Char.ofNat high), rest)

def stringBytes : Nat → Bytes → Option (Option Bytes × Bytes)
  | 0, _ => none
  | _ + 1, [] => none
  | fuel + 1, b :: bs =>
    if b == 34 then some (some [], bs)
    else if b < 32 then none
    else if b == 92 then
      match bs with
      | [] => none
      | 117 :: more => do
        let (c, rest) ← unicodeEscape? more
        let (tail, rest) ← stringBytes fuel rest
        some (c.bind fun c => tail.map (Text.encode [c] ++ ·), rest)
      | e :: more => do
        let e ← escapeByte? e
        let (tail, rest) ← stringBytes fuel more
        some (tail.map (e :: ·), rest)
    else do
      let (tail, rest) ← stringBytes fuel bs
      some (tail.map (b :: ·), rest)

def string? (bs : Bytes) : Option (Option (List Char) × Bytes) := do
  let (content, rest) ← stringBytes (bs.length + 1) bs
  some (content.bind Text.decode?, rest)

def digits? (bs : Bytes) : Option Bytes :=
  if (bs.takeWhile isDigit).isEmpty then none else some (bs.dropWhile isDigit)

def number? (bs : Bytes) : Option Bytes := do
  let unsigned := (byte? '-' bs).getD bs
  let whole ←
    match byte? '0' unsigned with
    | some rest => some rest
    | none => digits? unsigned
  let fraction ←
    match byte? '.' whole with
    | some rest => digits? rest
    | none => some whole
  match (byte? 'e' fraction).or (byte? 'E' fraction) with
  | some rest => digits? (((byte? '+' rest).or (byte? '-' rest)).getD rest)
  | none => some fraction

def word? (word : String) (bs : Bytes) : Option Bytes :=
  let w := Text.encode word.toList
  if w.isPrefixOf bs then some (bs.drop w.length) else none

abbrev Reader (α : Type) := Bytes → Option (α × Bytes)

def itemsAfter {α : Type} (item : Reader α) (stop : Char) : Nat → Reader (List α)
  | 0, _ => none
  | fuel + 1, bs =>
    let bs := skipSpace bs
    match byte? stop bs with
    | some rest => some ([], rest)
    | none => do
      let (i, rest) ← item (skipSpace (← byte? ',' bs))
      let (is, rest) ← itemsAfter item stop fuel rest
      some (i :: is, rest)

def items {α : Type} (item : Reader α) (stop : Char) (bs : Bytes) : Option (List α × Bytes) :=
  let bs := skipSpace bs
  match byte? stop bs with
  | some rest => some ([], rest)
  | none => do
    let (i, rest) ← item bs
    let (is, rest) ← itemsAfter item stop (rest.length + 1) rest
    some (i :: is, rest)

def member (value : Reader Value) : Reader (Option (List Char) × Value) := fun bs => do
  let (name, rest) ← string? (← byte? '"' bs)
  let rest ← byte? ':' (skipSpace rest)
  let (v, rest) ← value (skipSpace rest)
  some ((name, v), rest)

def value : Nat → Reader Value
  | 0, _ => none
  | _ + 1, [] => none
  | fuel + 1, b :: bs =>
    match Char.ofNat b.toNat with
    | '"' => (string? bs).map fun r => (.string r.1, r.2)
    | '[' => (items (value fuel) ']' bs).map fun r => (.array r.1, r.2)
    | '\x7b' => (items (member (value fuel)) '\x7d' bs).map fun r => (.object r.1, r.2)
    | 't' => (word? "true" (b :: bs)).map fun r => (.bool true, r)
    | 'f' => (word? "false" (b :: bs)).map fun r => (.bool false, r)
    | 'n' => (word? "null" (b :: bs)).map fun r => (.null, r)
    | _ => (number? (b :: bs)).map fun r => (.number, r)

def document? (bs : Bytes) : Option Value := do
  let (v, rest) ← value (bs.length + 1) (skipSpace bs)
  if (skipSpace rest).isEmpty then some v else none

/-- The value of a record's only field: a member of that name, or the only item of a list. A repeated
member, a name that is no text and a longer list are refused. -/
def field? (name : String) : Value → Option (Option Value)
  | .array [] => some none
  | .array [v] => some (some v)
  | .object members =>
    if members.any fun m => m.1.isNone then none
    else
      match members.filter fun m => m.1 == some name.toList with
      | [] => some none
      | [m] => some (some m.2)
      | _ => none
  | _ => none

def pluginClass (bytes : Bytes) : Except Failure (List Char) :=
  let result : Option (List Char) := do
    match ← field? "extra" (← document? bytes) with
    | none => some []
    | some extra =>
      match ← field? "shopware-plugin-class" extra with
      | none => some []
      | some (.string s) => s
      | some _ => none
  match result with
  | some c => .ok c
  | none => .error .serialization

end ProjectIndex.Composer
