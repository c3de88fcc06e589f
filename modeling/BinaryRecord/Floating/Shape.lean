/-!
Binary floating-point patterns as natural numbers: a sign bit, an exponent field, a fraction field.
A finite magnitude is counted in units of the least positive value of its shape, so conversion and
rounding are exact Nat arithmetic. Payloads of NaNs are not kept.
-/
namespace BinaryRecord

structure FloatShape where
  exponentBits : Nat
  fractionBits : Nat
  deriving DecidableEq

/-- The whole number nearest to `n / d`; of two that are equally near, the even one. -/
def roundQuotient (n d : Nat) : Nat :=
  if 2 * (n % d) < d ∨ (2 * (n % d) = d ∧ n / d % 2 = 0) then n / d else n / d + 1

namespace FloatShape

-- A power is the core library's, also where an algebraic hierarchy offers another.
attribute [local instance (high)] instPowNat

def single : FloatShape := ⟨8, 23⟩

def double : FloatShape := ⟨11, 52⟩

def signWeight (s : FloatShape) : Nat := 2 ^ (s.exponentBits + s.fractionBits)

def infinity (s : FloatShape) : Nat := (2 ^ s.exponentBits - 1) * 2 ^ s.fractionBits

def quietNaN (s : FloatShape) : Nat := s.infinity + 2 ^ (s.fractionBits - 1)

def scale (s : FloatShape) : Nat := 2 ^ (s.exponentBits - 1) - 2 + s.fractionBits

def isNegative (s : FloatShape) (bits : Nat) : Bool := bits / s.signWeight % 2 == 1

def unsigned (s : FloatShape) (bits : Nat) : Nat := bits % s.signWeight

def isNaN (s : FloatShape) (bits : Nat) : Bool := s.infinity < s.unsigned bits

def isInfinite (s : FloatShape) (bits : Nat) : Bool := s.unsigned bits == s.infinity

def isFinite (s : FloatShape) (bits : Nat) : Bool := s.unsigned bits < s.infinity

def exponentField (s : FloatShape) (bits : Nat) : Nat := s.unsigned bits / 2 ^ s.fractionBits

def fractionField (s : FloatShape) (bits : Nat) : Nat := bits % 2 ^ s.fractionBits

def significand (s : FloatShape) (bits : Nat) : Nat :=
  if s.exponentField bits = 0 then s.fractionField bits
  else 2 ^ s.fractionBits + s.fractionField bits

/-- The distance to the next pattern is `2 ^ quantum` units. -/
def quantum (s : FloatShape) (bits : Nat) : Nat := s.exponentField bits - 1

/-- The magnitude of a finite pattern, in units of the least positive value. -/
def magnitude (s : FloatShape) (bits : Nat) : Nat := s.significand bits * 2 ^ s.quantum bits

def withSign (s : FloatShape) (negative : Bool) (bits : Nat) : Nat :=
  if negative then s.signWeight + bits else bits

/-- The unsigned pattern nearest to `n / 2 ^ shift` units, ties to the even significand;
infinity from half a step above the largest finite value on. -/
def nearest (s : FloatShape) (n shift : Nat) : Nat :=
  let step := n.log2 - (shift + s.fractionBits)
  min (step * 2 ^ s.fractionBits + roundQuotient n (2 ^ (shift + step))) s.infinity

def convert (source target : FloatShape) (bits : Nat) : Nat :=
  if source.isNaN bits then target.quietNaN
  else target.withSign (source.isNegative bits) <|
    if source.isInfinite bits then target.infinity
    else target.nearest (source.magnitude bits * 2 ^ (target.scale - source.scale))
      (source.scale - target.scale)

def ofInt (s : FloatShape) (n : Int) : Nat :=
  s.withSign (n < 0) (s.nearest (n.natAbs * 2 ^ s.scale) 0)

def hasValue (s : FloatShape) (bits : Nat) (n : Int) : Bool :=
  s.isFinite bits && s.magnitude bits == n.natAbs * 2 ^ s.scale
    && (n == 0 || s.isNegative bits == decide (n < 0))

end FloatShape
end BinaryRecord
