import ProjectIndex.Text.Blank

/-!
Moments in time. They are written in UTC in the form of RFC 3339, with as many fraction digits as needed
of none, three, six or nine, and years past 9999 or before 0 with a sign. They are read more freely:
numbers may be shorter, and blanks may stand in front of numbers, marks and the offset.
-/
namespace ProjectIndex

/-- Seconds since 1970 and nanoseconds. A leap second counts on from the second before it. -/
structure Timestamp where
  seconds : Int
  nanos : Nat
deriving DecidableEq, Inhabited, Repr

namespace Timestamp

def daysOfDate (year : Int) (month day : Nat) : Int :=
  let y := if month ≤ 2 then year - 1 else year
  let era := y.fdiv 400
  let yearOfEra := (y - era * 400).toNat
  let shifted := (month + 9) % 12
  let dayOfYear := (153 * shifted + 2) / 5 + day - 1
  let dayOfEra := yearOfEra * 365 + yearOfEra / 4 - yearOfEra / 100 + dayOfYear
  era * 146097 + (dayOfEra : Int) - 719468

def dateOfDays (days : Int) : Int × Nat × Nat :=
  let z := days + 719468
  let era := z.fdiv 146097
  let dayOfEra := (z - era * 146097).toNat
  let yearOfEra := (dayOfEra - dayOfEra / 1460 + dayOfEra / 36524 - dayOfEra / 146096) / 365
  let dayOfYear := dayOfEra - (365 * yearOfEra + yearOfEra / 4 - yearOfEra / 100)
  let shifted := (5 * dayOfYear + 2) / 153
  let day := dayOfYear - (153 * shifted + 2) / 5 + 1
  let month := if shifted < 10 then shifted + 3 else shifted - 9
  let year := (yearOfEra : Int) + era * 400
  (if month ≤ 2 then year + 1 else year, month, day)

def number? (width : Nat) (s : List Char) : Option (Nat × List Char) :=
  let s := Text.trimStart Text.isBlank s
  let ds := (s.take width).takeWhile Char.isDigit
  if ds.isEmpty then none
  else some (ds.foldl (fun v d => v * 10 + (d.toNat - '0'.toNat)) 0, s.drop ds.length)

/-- A year: four digits at most, or any number of them behind a sign. -/
def year? (s : List Char) : Option (Int × List Char) :=
  let s := Text.trimStart Text.isBlank s
  let signed := fun (rest : List Char) (negate : Bool) =>
    if rest.head?.any Char.isDigit then
      (number? rest.length rest).map fun r => (if negate then -(r.1 : Int) else (r.1 : Int), r.2)
    else none
  match s with
  | '+' :: rest => signed rest false
  | '-' :: rest => signed rest true
  | _ => (number? 4 s).map fun r => ((r.1 : Int), r.2)

def mark? (c : Char) (s : List Char) : Option (List Char) :=
  match Text.trimStart Text.isBlank s with
  | d :: rest => if c = d then some rest else none
  | [] => none

def daysInMonth (year : Int) (month : Nat) : Nat :=
  if month = 2 then
    if year % 4 = 0 && (year % 100 ≠ 0 || year % 400 = 0) then 29 else 28
  else if [4, 6, 9, 11].contains month then 30 else 31

def fraction? (s : List Char) : Option (Nat × List Char) :=
  match s with
  | '.' :: rest =>
    let ds := rest.takeWhile Char.isDigit
    let nine := (ds ++ List.replicate 9 '0').take 9
    if ds.isEmpty then none
    else some (nine.foldl (fun v d => v * 10 + (d.toNat - '0'.toNat)) 0, rest.drop ds.length)
  | _ => some (0, s)

def twoDigits? : List Char → Option (Nat × List Char)
  | c :: d :: rest =>
    if c.isDigit && d.isDigit then some ((c.toNat - 48) * 10 + (d.toNat - 48), rest) else none
  | _ => none

/-- The seconds an offset lies ahead of UTC: `Z` and `UTC` in either case, or hours and minutes behind a
sign, with colons and blanks between them if any. The minus of typography is a sign too. -/
def offset? (s : List Char) : Option (Int × List Char) :=
  let s := Text.trimStart Text.isBlank s
  if (s.take 3).map Char.toLower == ['u', 't', 'c'] then some (0, s.drop 3)
  else
    match s with
    | [] => none
    | mark :: rest =>
      if mark = 'Z' || mark = 'z' then some (0, rest)
      else do
        let (hours, rest) ← twoDigits? rest
        let (minutes, rest) ← twoDigits? (rest.dropWhile fun c => c == ':' || Text.isBlank c)
        if minutes > 59 || hours > 23 then none
        else if mark = '+' then some ((hours * 3600 + minutes * 60 : Nat), rest)
        else if mark = '-' || mark = '\u2212' then some (-(hours * 3600 + minutes * 60 : Nat), rest)
        else none

def isYear (year : Int) : Bool := -262143 ≤ year && year ≤ 262142

def parse? (text : String) : Option Timestamp := do
  let (year, s) ← year? text.toList
  let (month, s) ← number? 2 (← mark? '-' s)
  let (day, s) ← number? 2 (← mark? '-' s)
  let s ← match s with
    | c :: rest => if ['t', 'T', ' '].contains c then some rest else none
    | [] => none
  let (hour, s) ← number? 2 s
  let (minute, s) ← number? 2 (← mark? ':' s)
  let (second, s) ← number? 2 (← mark? ':' s)
  let (nanos, s) ← fraction? s
  let (ahead, s) ← offset? s
  let leap := second = 60
  let clock := hour * 3600 + minute * 60 + min second 59
  let seconds := daysOfDate year month day * 86400 + (clock : Int) - ahead
  if month = 0 || month > 12 || day = 0 || day > daysInMonth year month || hour > 23 ||
      minute > 59 || second > 60 || !isYear year || !isYear (dateOfDays (seconds.fdiv 86400)).1 ||
      !s.all Text.isBlank then none
  else some ⟨seconds, if leap then nanos + 1000000000 else nanos⟩

def padded (width n : Nat) : String :=
  let ds := toString n
  String.ofList (List.replicate (width - ds.length) '0') ++ ds

def renderFraction (nanos : Nat) : String :=
  if nanos = 0 then ""
  else if nanos % 1000000 = 0 then "." ++ padded 3 (nanos / 1000000)
  else if nanos % 1000 = 0 then "." ++ padded 6 (nanos / 1000)
  else "." ++ padded 9 nanos

def renderYear (year : Int) : String :=
  if 0 ≤ year && year ≤ 9999 then padded 4 year.toNat
  else (if year < 0 then "-" else "+") ++ padded 4 year.natAbs

def render (t : Timestamp) : String :=
  let (year, month, day) := dateOfDays (t.seconds.fdiv 86400)
  let clock := (t.seconds.fmod 86400).toNat
  let leap := 1000000000 ≤ t.nanos
  let second := if leap then clock % 60 + 1 else clock % 60
  renderYear year ++ "-" ++ padded 2 month ++ "-" ++ padded 2 day ++ "T" ++
    padded 2 (clock / 3600) ++ ":" ++ padded 2 (clock / 60 % 60) ++ ":" ++ padded 2 second ++
    renderFraction (t.nanos % 1000000000) ++ "Z"

end Timestamp
end ProjectIndex
