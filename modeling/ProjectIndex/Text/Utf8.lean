/-!
UTF-8 in both directions. Decoding never fails: every maximal part of an ill-formed sequence becomes
one replacement character. A byte list is well formed exactly when encoding what was decoded gives
it back.
-/
namespace ProjectIndex.Text

def encode (s : List Char) : List UInt8 := s.flatMap String.utf8EncodeChar

def replacement : Char := Char.ofNat 0xFFFD

/-- A character whose first bytes were read: how many bytes it still needs, the range of the next
one, and the bits so far. -/
structure Unfinished where
  left : Nat
  low : Nat
  high : Nat
  bits : Nat

def leadByte (b : UInt8) : List Char × Option Unfinished :=
  let n := b.toNat
  if n < 0x80 then ([Char.ofNat n], none)
  else if n < 0xC2 then ([replacement], none)
  else if n < 0xE0 then ([], some ⟨1, 0x80, 0xBF, n - 0xC0⟩)
  else if n = 0xE0 then ([], some ⟨2, 0xA0, 0xBF, 0⟩)
  else if n = 0xED then ([], some ⟨2, 0x80, 0x9F, 0xD⟩)
  else if n < 0xF0 then ([], some ⟨2, 0x80, 0xBF, n - 0xE0⟩)
  else if n = 0xF0 then ([], some ⟨3, 0x90, 0xBF, 0⟩)
  else if n < 0xF4 then ([], some ⟨3, 0x80, 0xBF, n - 0xF0⟩)
  else if n = 0xF4 then ([], some ⟨3, 0x80, 0x8F, 4⟩)
  else ([replacement], none)

def readByte : Option Unfinished → UInt8 → List Char × Option Unfinished
  | none, b => leadByte b
  | some u, b =>
    if u.low ≤ b.toNat && b.toNat ≤ u.high then
      let bits := u.bits * 64 + (b.toNat - 0x80)
      if u.left ≤ 1 then ([Char.ofNat bits], none)
      else ([], some ⟨u.left - 1, 0x80, 0xBF, bits⟩)
    else (replacement :: (leadByte b).1, (leadByte b).2)

def decodeFrom : Option Unfinished → List UInt8 → List Char
  | none, [] => []
  | some _, [] => [replacement]
  | u, b :: bs => (readByte u b).1 ++ decodeFrom (readByte u b).2 bs

/-- The text of a byte list, with a replacement character for each ill-formed part. -/
def decodeLossy (bytes : List UInt8) : List Char := decodeFrom none bytes

def decode? (bytes : List UInt8) : Option (List Char) :=
  if encode (decodeLossy bytes) = bytes then some (decodeLossy bytes) else none

end ProjectIndex.Text
