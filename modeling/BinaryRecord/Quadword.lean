/-!
64-bit integers with a signedness of their own, built from two 32-bit words.
A value is kept as its bit pattern; every integer has one, so nothing is out of range.
-/
namespace BinaryRecord

structure Quadword where
  bits : BitVec 64
  unsigned : Bool
  deriving DecidableEq

namespace Quadword

-- A power is the core library's, also where an algebraic hierarchy offers another.
attribute [local instance (high)] instPowNat

/-- The integer reduced modulo 2 ^ 64 into the range of the signedness. -/
def wrap (value : Int) (unsigned : Bool) : Int :=
  let masked := value % 2 ^ (64 : Nat)
  if unsigned = false ∧ masked >>> (63 : Nat) ≠ 0 then masked - 1 <<< (64 : Nat) else masked

def ofInt (value : Int) (unsigned : Bool) : Quadword := ⟨BitVec.ofInt 64 value, unsigned⟩

def value (x : Quadword) : Int := if x.unsigned then x.bits.toNat else x.bits.toInt

def pattern (x : Quadword) : Nat := x.bits.toNat

def high (x : Quadword) : Nat := x.pattern / 2 ^ (32 : Nat)

def low (x : Quadword) : Nat := x.pattern % 2 ^ (32 : Nat)

def joined (low high : Int) : Nat :=
  (high % 2 ^ (32 : Nat)).toNat <<< (32 : Nat) ||| (low % 2 ^ (32 : Nat)).toNat

def ofWords (low high : Int) (unsigned : Bool) : Quadword :=
  ofInt (high % 2 ^ (32 : Nat) * 2 ^ (32 : Nat) + low % 2 ^ (32 : Nat)) unsigned

def withSign (x : Quadword) (unsigned : Bool) : Quadword := ofInt x.value unsigned

def asSigned (x : Quadword) : Quadword := x.withSign false

def asUnsigned (x : Quadword) : Quadword := x.withSign true

/-- A value under a signedness, and whether it had that signedness before; then it is kept as it is. -/
def promoted (x : Quadword) (unsigned : Bool) : Quadword × Bool :=
  if x.unsigned = unsigned then (x, true) else (x.withSign unsigned, false)

def saved (x : Quadword) : Int × Bool := (x.value, x.unsigned)

def restore (record : Int × Bool) : Quadword := ofInt record.1 record.2

theorem pattern_ofInt (value : Int) (unsigned : Bool) :
    ((ofInt value unsigned).pattern : Int) = value % 2 ^ (64 : Nat) := by
  simp only [ofInt, pattern, BitVec.toNat_ofInt]
  omega

theorem pattern_eq_words (x : Quadword) : x.pattern = x.high * 2 ^ (32 : Nat) + x.low := by
  simp only [high, low]
  omega

/-- Two's complement is the mask, less a whole turn where the sign bit is set. -/
theorem value_eq_wrap (value : Int) (unsigned : Bool) :
    (ofInt value unsigned).value = wrap value unsigned := by
  have residue := pattern_ofInt value unsigned
  have shift : (2 ^ (63 : Nat) : Nat) = 9223372036854775808 := rfl
  unfold pattern at residue
  unfold Quadword.value wrap
  cases unsigned with
  | true => simpa [ofInt] using residue
  | false =>
    change (ofInt value false).bits.toInt = _
    rw [BitVec.toInt_eq_toNat_cond]
    simp only [Int.shiftRight_eq_div_pow, shift, true_and]
    split <;> split <;> omega

theorem ofWords_eq_joined (low high : Int) (unsigned : Bool) :
    ofWords low high unsigned = ofInt (joined low high) unsigned := by
  have small : (low % 2 ^ (32 : Nat)).toNat < 2 ^ 32 := by omega
  unfold ofWords joined
  rw [← Nat.shiftLeft_add_eq_or_of_lt small, Nat.shiftLeft_eq]
  congr 1
  omega

def hex (x : Quadword) : String :=
  (if x.value < 0 then "-0x" else "0x") ++ String.ofList (Nat.toDigits 16 x.value.natAbs)

def decimal (x : Quadword) : String :=
  (if x.value < 0 then "-" else "") ++ String.ofList (Nat.toDigits 10 x.value.natAbs)

def shown (x : Quadword) : String :=
  "Long(" ++ x.decimal ++ ", unsigned=" ++ (if x.unsigned then "True" else "False") ++ ")"

end Quadword
end BinaryRecord
