import BinaryRecord.Bytes

/-!
UTF-8: the bytes of a text, and a decoder that never fails. Of ill-formed bytes each longest run
that starts a well-formed character, or one byte where none does, becomes one U+FFFD.
-/
namespace BinaryRecord.Utf8

def encodeChar (c : Char) : Bytes :=
  let n := c.toNat
  let tail (k : Nat) : UInt8 := UInt8.ofNat (0x80 + n / k % 64)
  if n < 0x80 then [UInt8.ofNat n]
  else if n < 0x800 then [UInt8.ofNat (0xC0 + n / 64), tail 1]
  else if n < 0x10000 then [UInt8.ofNat (0xE0 + n / 4096), tail 64, tail 1]
  else [UInt8.ofNat (0xF0 + n / 262144), tail 4096, tail 64, tail 1]

def encodeChars (cs : List Char) : Bytes := cs.flatMap encodeChar

/-- A character whose first bytes were read: how many are owed, the range that the next one must
lie in, and the payload so far. -/
structure Unfinished where
  owed : Nat
  least : Nat
  greatest : Nat
  payload : Nat
  deriving DecidableEq

/-- What a first byte of several announces. The ranges leave out longer forms than needed,
surrogates and what lies above U+10FFFF. -/
def lead? (n : Nat) : Option Unfinished :=
  if n < 0xC2 then none
  else if n < 0xE0 then some ⟨1, 0x80, 0xBF, n - 0xC0⟩
  else if n < 0xF0 then
    some ⟨2, if n = 0xE0 then 0xA0 else 0x80, if n = 0xED then 0x9F else 0xBF, n - 0xE0⟩
  else if n < 0xF5 then
    some ⟨3, if n = 0xF0 then 0x90 else 0x80, if n = 0xF4 then 0x8F else 0xBF, n - 0xF0⟩
  else none

def replacement : Char := '\uFFFD'

def first (b : UInt8) : List Char × Option Unfinished :=
  if b.toNat < 0x80 then ([Char.ofNat b.toNat], none)
  else match lead? b.toNat with
    | none => ([replacement], none)
    | some u => ([], some u)

/-- Reads one byte; a byte that cannot continue a character starts the next one. -/
def step : Option Unfinished → UInt8 → List Char × Option Unfinished
  | none, b => first b
  | some u, b =>
    if u.least ≤ b.toNat ∧ b.toNat ≤ u.greatest then
      let payload := u.payload * 64 + b.toNat % 64
      if u.owed ≤ 1 then ([Char.ofNat payload], none)
      else ([], some ⟨u.owed - 1, 0x80, 0xBF, payload⟩)
    else (replacement :: (first b).1, (first b).2)

def decodeFrom : Option Unfinished → Bytes → List Char
  | none, [] => []
  | some _, [] => [replacement]
  | state, b :: bs => (step state b).1 ++ decodeFrom (step state b).2 bs

def decodeChars (bs : Bytes) : List Char := decodeFrom none bs

def encode (s : String) : Bytes := encodeChars s.toList

def decode (bs : Bytes) : String := String.ofList (decodeChars bs)

def WellFormed (bs : Bytes) : Prop := ∃ cs : List Char, encodeChars cs = bs

end BinaryRecord.Utf8
