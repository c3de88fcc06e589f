import BinaryRecord.Floating.Shape

/-!
The decimal text of a float: the fewest digits that read back as the same pattern, of these the
nearest to the value. Everything is exact Nat/Int arithmetic on magnitudes in least units.
-/
namespace BinaryRecord

structure Decimal where
  coefficient : Nat
  exponent : Int
  deriving DecidableEq

namespace FloatShape

-- A power is the core library's, also where an algebraic hierarchy offers another.
attribute [local instance (high)] instPowNat

def leadingExponent (s : FloatShape) (n : Nat) : Int :=
  let unit := 2 ^ s.scale
  if unit ≤ n then (Nat.toDigits 10 (n / unit)).length - 1
  else -((Nat.toDigits 10 ((unit - 1) / n)).length : Int)

/-- `c * 10 ^ k` against `n / 4` units: both sides of the comparison, as whole numbers. -/
def gridSides (s : FloatShape) (c : Nat) (k : Int) (n : Nat) : Nat × Nat :=
  if 0 ≤ k then (4 * c * 10 ^ k.toNat * 2 ^ s.scale, n)
  else (4 * c * 2 ^ s.scale, n * 10 ^ k.natAbs)

/-- Whether `c * 10 ^ k` lies where numbers are read as this positive finite pattern: no more than
half the way to a neighbour, the ends included for an even significand. -/
def readsBack (s : FloatShape) (bits c : Nat) (k : Int) : Bool :=
  let half := 2 ^ (s.quantum bits + 1)
  let below := if s.fractionField bits = 0 ∧ 1 < s.exponentField bits then half / 2 else half
  let lower := s.gridSides c k (4 * s.magnitude bits - below)
  let upper := s.gridSides c k (4 * s.magnitude bits + half)
  if s.significand bits % 2 = 0 then lower.2 ≤ lower.1 && upper.1 ≤ upper.2
  else lower.2 < lower.1 && upper.1 < upper.2

/-- The neighbours of the value on the grid `10 ^ k` that read back; of two the nearer, of two
equally near ones the even. -/
def onGrid? (s : FloatShape) (bits : Nat) (k : Int) : Option Nat :=
  let sides := s.gridSides 1 k (4 * s.magnitude bits)
  let floor := sides.2 / sides.1
  match s.readsBack bits floor k, s.readsBack bits (floor + 1) k with
  | true, true => some (roundQuotient sides.2 sides.1)
  | true, false => some floor
  | false, true => some (floor + 1)
  | false, false => none

def firstGrid (s : FloatShape) (bits : Nat) : Nat → Int → Decimal
  | 0, k => ⟨0, k⟩
  | tries + 1, k =>
    match s.onGrid? bits k with
    | some c => ⟨c, k⟩
    | none => firstGrid s bits tries (k - 1)

/-- The shortest decimal that reads back as a positive finite pattern; 17 digits always do. -/
def shortest (s : FloatShape) (bits : Nat) : Decimal :=
  s.firstGrid bits 17 (s.leadingExponent (s.magnitude bits))

end FloatShape

structure DecimalLayout where
  leastPositional : Int
  greatestPositional : Int
  exponentDigits : Nat

namespace DecimalLayout

def zeros (n : Nat) : List Char := List.replicate n '0'

def positional (digits : List Char) (places : Int) : List Char :=
  if places ≤ 0 then '0' :: '.' :: (zeros places.natAbs ++ digits)
  else
    let whole := digits.take places.toNat ++ zeros (places.toNat - digits.length)
    let rest := digits.drop places.toNat
    whole ++ '.' :: (if rest.isEmpty then ['0'] else rest)

def scientific (layout : DecimalLayout) (digits : List Char) (exponent : Int) : List Char :=
  let mantissa := match digits with
    | [] => []
    | [d] => [d]
    | d :: rest => d :: '.' :: rest
  let power := Nat.toDigits 10 exponent.natAbs
  mantissa ++ 'e' :: (if exponent < 0 then '-' else '+')
    :: (zeros (layout.exponentDigits - power.length) ++ power)

def render (layout : DecimalLayout) (x : Decimal) : List Char :=
  let written := Nat.toDigits 10 x.coefficient
  let digits := (written.reverse.dropWhile (· == '0')).reverse
  let leading := x.exponent + written.length - 1
  if leading < layout.leastPositional ∨ layout.greatestPositional < leading then
    layout.scientific digits leading
  else positional digits (leading + 1)

def standard : DecimalLayout := ⟨-4, 15, 2⟩

end DecimalLayout

namespace FloatShape

def text (s : FloatShape) (layout : DecimalLayout) (bits : Nat) : String :=
  if s.isNaN bits then "nan"
  else
    let body :=
      if s.isInfinite bits then ['i', 'n', 'f']
      else if s.unsigned bits = 0 then ['0', '.', '0']
      else layout.render (s.shortest bits)
    String.ofList (if s.isNegative bits then '-' :: body else body)

end FloatShape
end BinaryRecord
