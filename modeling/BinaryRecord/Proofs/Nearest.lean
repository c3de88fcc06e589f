import BinaryRecord.Proofs.Rounding
import Mathlib.Algebra.Order.Field.Basic
import Mathlib.Order.Monotone.Basic
import Mathlib.Tactic.FieldSimp
import Mathlib.Tactic.Linarith
import Mathlib.Tactic.NormNum
import Mathlib.Tactic.Positivity

/-!
Rounding to a float shape. The magnitudes of the patterns are the rungs of one ladder, which goes
on above the largest finite one. A number is rounded to the nearest rung, or of two to the even
one, and the shape has no room for it exactly where that rung is the first one that is not finite,
or higher.
-/
namespace BinaryRecord

theorem roundQuotient_cases (n d : Nat) :
    (roundQuotient n d = n / d ∧ 2 * (n % d) ≤ d ∧ (2 * (n % d) = d → n / d % 2 = 0)) ∨
      (roundQuotient n d = n / d + 1 ∧ d ≤ 2 * (n % d) ∧
        (2 * (n % d) = d → (n / d + 1) % 2 = 0)) := by
  unfold roundQuotient
  split
  · rename_i down
    exact Or.inl ⟨rfl, by omega, by omega⟩
  · rename_i up
    exact Or.inr ⟨rfl, by omega, by omega⟩

namespace FloatShape

variable {s : FloatShape} {n shift p r q step : Nat}

theorem rung_normal_succ (normal : s.Normal q step) :
    s.rung (step * 2 ^ s.fractionBits + q + 1) = (q + 1) * 2 ^ step := by
  by_cases last : q + 1 = 2 ^ (s.fractionBits + 1)
  · have next : s.Normal (2 ^ s.fractionBits) (step + 1) :=
      ⟨Nat.pow_lt_pow_right (by decide) (by omega), Or.inl (Nat.le_refl _)⟩
    have same : step * 2 ^ s.fractionBits + q + 1 =
        (step + 1) * 2 ^ s.fractionBits + 2 ^ s.fractionBits := by
      rw [Nat.pow_succ] at last
      rw [Nat.succ_mul]
      omega
    rw [same, rung_normal next, last]
    ring
  · have inside : s.Normal (q + 1) step := by
      refine ⟨?_, normal.2.imp_left Nat.le_succ_of_le⟩
      have := normal.1
      omega
    rw [Nat.add_assoc, rung_normal inside]

theorem rung_strictMono (s : FloatShape) : StrictMono s.rung := by
  apply strictMono_nat_of_lt_succ
  intro p
  obtain ⟨q, step, normal, rfl⟩ : ∃ q step, s.Normal q step ∧ step * 2 ^ s.fractionBits + q = p :=
    ⟨_, _, s.normal_parts p⟩
  rw [rung_normal normal, rung_normal_succ normal]
  exact Nat.mul_lt_mul_of_pos_right (Nat.lt_succ_self q) (Nat.two_pow_pos _)

/-- The pattern of `n / 2 ^ shift` units, were there no end of the exponents. -/
def unbounded (s : FloatShape) (n shift : Nat) : Nat :=
  let step := n.log2 - (shift + s.fractionBits)
  step * 2 ^ s.fractionBits + roundQuotient n (2 ^ (shift + step))

theorem nearest_eq (s : FloatShape) (n shift : Nat) :
    s.nearest n shift = min (s.unbounded n shift) s.infinity := rfl

theorem normal_quotient (s : FloatShape) (n shift : Nat) :
    s.Normal (n / 2 ^ (shift + (n.log2 - (shift + s.fractionBits))))
      (n.log2 - (shift + s.fractionBits)) := by
  generalize step : n.log2 - (shift + s.fractionBits) = k
  constructor
  · have above : n < 2 ^ (s.fractionBits + 1 + (shift + k)) :=
      Nat.lt_of_lt_of_le Nat.lt_log2_self (Nat.pow_le_pow_right (by decide) (by omega))
    rw [Nat.pow_add] at above
    exact (Nat.div_lt_iff_lt_mul (Nat.two_pow_pos _)).mpr above
  · by_cases least : k = 0
    · exact Or.inr least
    · have nonzero : n ≠ 0 := by
        rintro rfl
        rw [Nat.log2_zero] at step
        omega
      have below : 2 ^ (s.fractionBits + (shift + k)) ≤ n :=
        (Nat.le_log2 nonzero).mp (by omega)
      rw [Nat.pow_add] at below
      exact Or.inl ((Nat.le_div_iff_mul_le (Nat.two_pow_pos _)).mpr below)

theorem even_step (fraction : 0 < s.fractionBits) (step : Nat) :
    step * 2 ^ s.fractionBits % 2 = 0 :=
  Nat.mod_eq_zero_of_dvd ((dvd_pow_self 2 fraction.ne').mul_left step)

theorem two_le_infinity (exponent : 0 < s.exponentBits) (fraction : 0 < s.fractionBits) :
    2 ≤ s.infinity := by
  have field : 2 ≤ 2 ^ s.fractionBits :=
    Nat.le_of_dvd (Nat.two_pow_pos _) (dvd_pow_self 2 fraction.ne')
  have range : 2 ≤ 2 ^ s.exponentBits :=
    Nat.le_of_dvd (Nat.two_pow_pos _) (dvd_pow_self 2 exponent.ne')
  have some : 1 * 2 ^ s.fractionBits ≤ s.infinity := Nat.mul_le_mul_right _ (by omega)
  omega

/-- The rung of a pattern is nearest to `n / 2 ^ shift`: no midpoint with another rung lies between
them, and it is itself a midpoint only if the pattern is even. -/
structure Rounds (s : FloatShape) (n shift p : Nat) : Prop where
  below : ∀ r < p, (s.rung r + s.rung p) * 2 ^ shift ≤ 2 * n ∧
    ((s.rung r + s.rung p) * 2 ^ shift = 2 * n → p % 2 = 0)
  above : ∀ r, p < r → 2 * n ≤ (s.rung p + s.rung r) * 2 ^ shift ∧
    (2 * n = (s.rung p + s.rung r) * 2 ^ shift → p % 2 = 0)

theorem Rounds.down (low : s.rung p * 2 ^ shift ≤ n)
    (high : 2 * n ≤ (s.rung p + s.rung (p + 1)) * 2 ^ shift)
    (tie : 2 * n = (s.rung p + s.rung (p + 1)) * 2 ^ shift → p % 2 = 0) : s.Rounds n shift p := by
  have unit := Nat.two_pow_pos shift
  constructor
  · intro r less
    have strict : (s.rung r + s.rung p) * 2 ^ shift < 2 * n := by
      have := Nat.mul_lt_mul_of_pos_right (s.rung_strictMono less) unit
      rw [Nat.add_mul]
      omega
    exact ⟨Nat.le_of_lt strict, fun same => absurd same (Nat.ne_of_lt strict)⟩
  · intro r more
    have next : (s.rung p + s.rung (p + 1)) * 2 ^ shift ≤ (s.rung p + s.rung r) * 2 ^ shift :=
      Nat.mul_le_mul_right _ (Nat.add_le_add_left (s.rung_strictMono.monotone more) _)
    exact ⟨Nat.le_trans high next, fun same => tie (Nat.le_antisymm high (same ▸ next))⟩

theorem Rounds.up (high : n < s.rung (p + 1) * 2 ^ shift)
    (low : (s.rung p + s.rung (p + 1)) * 2 ^ shift ≤ 2 * n)
    (tie : 2 * n = (s.rung p + s.rung (p + 1)) * 2 ^ shift → (p + 1) % 2 = 0) :
    s.Rounds n shift (p + 1) := by
  have unit := Nat.two_pow_pos shift
  constructor
  · intro r less
    have last : (s.rung r + s.rung (p + 1)) * 2 ^ shift ≤
        (s.rung p + s.rung (p + 1)) * 2 ^ shift :=
      Nat.mul_le_mul_right _
        (Nat.add_le_add_right (s.rung_strictMono.monotone (Nat.le_of_lt_succ less)) _)
    exact ⟨Nat.le_trans last low, fun same => tie (Nat.le_antisymm (same ▸ last) low)⟩
  · intro r more
    have strict : 2 * n < (s.rung (p + 1) + s.rung r) * 2 ^ shift := by
      have := Nat.mul_lt_mul_of_pos_right (s.rung_strictMono more) unit
      rw [Nat.add_mul]
      omega
    exact ⟨Nat.le_of_lt strict, fun same => absurd same (Nat.ne_of_lt strict)⟩

theorem unbounded_rounds (fraction : 0 < s.fractionBits) (n shift : Nat) :
    s.Rounds n shift (s.unbounded n shift) := by
  have normal := s.normal_quotient n shift
  unfold unbounded
  generalize n.log2 - (shift + s.fractionBits) = step at normal ⊢
  dsimp only
  have parts := Nat.div_add_mod n (2 ^ (shift + step))
  have rest : n % 2 ^ (shift + step) < 2 ^ (shift + step) := Nat.mod_lt _ (Nat.two_pow_pos _)
  have cases := roundQuotient_cases n (2 ^ (shift + step))
  generalize roundQuotient n (2 ^ (shift + step)) = rounded at cases ⊢
  generalize n / 2 ^ (shift + step) = q at *
  generalize n % 2 ^ (shift + step) = r at *
  have even := even_step fraction step
  -- Both rungs around the number are multiples of the step.
  have here : s.rung (step * 2 ^ s.fractionBits + q) * 2 ^ shift = 2 ^ (shift + step) * q := by
    rw [rung_normal normal, Nat.pow_add]
    ring
  have next : s.rung (step * 2 ^ s.fractionBits + q + 1) * 2 ^ shift =
      2 ^ (shift + step) * q + 2 ^ (shift + step) := by
    rw [rung_normal_succ normal, Nat.pow_add]
    ring
  have middle : (s.rung (step * 2 ^ s.fractionBits + q) +
      s.rung (step * 2 ^ s.fractionBits + q + 1)) * 2 ^ shift =
        2 * (2 ^ (shift + step) * q) + 2 ^ (shift + step) := by
    rw [Nat.add_mul, here, next]
    ring
  rcases cases with ⟨rfl, small, tie⟩ | ⟨rfl, large, tie⟩
  · apply Rounds.down
    · omega
    · rw [middle]
      omega
    · rw [middle]
      omega
  · rw [← Nat.add_assoc]
    apply Rounds.up
    · omega
    · rw [middle]
      omega
    · rw [middle]
      omega

/-- The first rung that is not finite is rounded to from the midpoint below it on. The largest finite
pattern is odd, so that also the midpoint itself is rounded up. -/
theorem infinity_le_unbounded (exponent : 0 < s.exponentBits) (fraction : 0 < s.fractionBits)
    (n shift : Nat) :
    s.infinity ≤ s.unbounded n shift ↔
      (s.rung (s.infinity - 1) + s.rung s.infinity) * 2 ^ shift ≤ 2 * n := by
  have positive := two_le_infinity exponent fraction
  have even : s.infinity % 2 = 0 := even_step fraction _
  have rounds := unbounded_rounds fraction n shift
  constructor
  · intro reached
    have midpoint := (rounds.below (s.infinity - 1) (by omega)).1
    have higher := s.rung_strictMono.monotone reached
    exact Nat.le_trans (Nat.mul_le_mul_right _ (Nat.add_le_add_left higher _)) midpoint
  · intro large
    by_contra short
    obtain ⟨midpoint, tie⟩ := rounds.above s.infinity (by omega)
    have lower : s.rung (s.unbounded n shift) ≤ s.rung (s.infinity - 1) :=
      s.rung_strictMono.monotone (by omega)
    have between := Nat.mul_le_mul_right (2 ^ shift)
      (Nat.add_le_add_right lower (s.rung s.infinity))
    have tied := tie (Nat.le_antisymm midpoint (Nat.le_trans between large))
    have same : s.rung (s.unbounded n shift) = s.rung (s.infinity - 1) := by
      have equal := Nat.eq_of_mul_eq_mul_right (Nat.two_pow_pos shift)
        (Nat.le_antisymm between (Nat.le_trans large midpoint))
      omega
    have last := s.rung_strictMono.injective same
    omega

def signed (negative : Bool) (x : ℚ) : ℚ := (if negative then -1 else 1) * x

def exact (s : FloatShape) (bits : Nat) : ℚ :=
  signed (s.isNegative bits) (s.significand bits * 2 ^ ((s.quantum bits : ℤ) - s.scale))

/-- Every other number of the shape is further from `x`, or it is as far and the significand is
even. -/
def NearestEven (s : FloatShape) (x : ℚ) (bits : Nat) : Prop :=
  ∀ other, s.isFinite other → s.exact other ≠ s.exact bits →
    |s.exact bits - x| < |s.exact other - x| ∨
      |s.exact bits - x| = |s.exact other - x| ∧ s.significand bits % 2 = 0

def units (s : FloatShape) (n shift : Nat) : ℚ := n / 2 ^ shift / 2 ^ s.scale

def height (s : FloatShape) (p : Nat) : ℚ := s.rung p / 2 ^ s.scale

theorem height_nonneg (s : FloatShape) (p : Nat) : 0 ≤ s.height p := by
  unfold height
  positivity

theorem units_nonneg (s : FloatShape) (n shift : Nat) : 0 ≤ s.units n shift := by
  unfold units
  positivity

theorem height_strictMono (s : FloatShape) : StrictMono s.height := by
  intro p r less
  have rungs : (s.rung p : ℚ) < s.rung r := by exact_mod_cast s.rung_strictMono less
  exact div_lt_div_of_pos_right rungs (by positivity)

theorem exact_eq (s : FloatShape) (bits : Nat) :
    s.exact bits = signed (s.isNegative bits) (s.height (s.unsigned bits)) := by
  rw [exact, height, rung_unsigned, magnitude, zpow_sub₀ (by norm_num)]
  push_cast
  rw [zpow_natCast, zpow_natCast, mul_div_assoc]

theorem abs_signed (negative : Bool) (x : ℚ) : |signed negative x| = |x| := by
  cases negative <;> simp [signed]

theorem signed_sub (negative : Bool) (x y : ℚ) :
    signed negative x - signed negative y = signed negative (x - y) := by
  unfold signed
  ring

theorem exact_cases (s : FloatShape) (negative : Bool) (bits : Nat) :
    s.exact bits = signed negative (s.height (s.unsigned bits)) ∨
      s.exact bits = -signed negative (s.height (s.unsigned bits)) ∧
        0 < s.height (s.unsigned bits) := by
  rw [exact_eq]
  by_cases sign : s.isNegative bits = negative
  · exact Or.inl (by rw [sign])
  · rcases (s.height_nonneg (s.unsigned bits)).eq_or_lt with zero | positive
    · refine Or.inl ?_
      rw [← zero]
      cases s.isNegative bits <;> cases negative <;> simp [signed]
    · refine Or.inr ⟨?_, positive⟩
      cases negative <;> simp [Bool.eq_not.mpr sign, signed]

theorem abs_exact (s : FloatShape) (bits : Nat) : |s.exact bits| = s.height (s.unsigned bits) := by
  rw [exact_eq, abs_signed, abs_of_nonneg (s.height_nonneg _)]

theorem exact_withSign (negative : Bool) (small : p < s.signWeight) :
    s.exact (s.withSign negative p) = signed negative (s.height p) := by
  rw [exact_eq, isNegative_withSign negative small, unsigned_withSign negative small]

theorem significand_even (fraction : 0 < s.fractionBits) (bits : Nat) :
    s.significand bits % 2 = s.unsigned bits % 2 := by
  have even := even_step fraction (s.quantum bits)
  rw [← (normal_fields s bits).2]
  omega

theorem midpoint_le (s : FloatShape) (p r n shift : Nat) :
    (s.rung p + s.rung r) * 2 ^ shift ≤ 2 * n ↔
      s.height p + s.height r ≤ 2 * s.units n shift := by
  have cast : (s.rung p + s.rung r) * 2 ^ shift ≤ 2 * n ↔
      ((s.rung p : ℚ) + s.rung r) * 2 ^ shift ≤ 2 * n := by exact_mod_cast Iff.rfl
  rw [cast, height, height, units]
  field_simp

theorem le_midpoint (s : FloatShape) (p r n shift : Nat) :
    2 * n ≤ (s.rung p + s.rung r) * 2 ^ shift ↔
      2 * s.units n shift ≤ s.height p + s.height r := by
  have cast : 2 * n ≤ (s.rung p + s.rung r) * 2 ^ shift ↔
      2 * (n : ℚ) ≤ ((s.rung p : ℚ) + s.rung r) * 2 ^ shift := by exact_mod_cast Iff.rfl
  rw [cast, height, height, units]
  field_simp

theorem closer_of_above {a b x : ℚ} {even : Prop} (less : a < b) (middle : a + b ≤ 2 * x)
    (tie : a + b = 2 * x → even) : |b - x| < |a - x| ∨ |b - x| = |a - x| ∧ even := by
  have below : |a - x| = x - a := by
    rw [abs_sub_comm]
    exact abs_of_nonneg (by linarith)
  rcases middle.lt_or_eq with strict | same
  · refine Or.inl ?_
    rw [below, abs_lt]
    constructor <;> linarith
  · refine Or.inr ⟨?_, tie same⟩
    rw [below, abs_of_nonneg (by linarith)]
    linarith

theorem closer_of_below {a b x : ℚ} {even : Prop} (less : a < b) (middle : 2 * x ≤ a + b)
    (tie : 2 * x = a + b → even) : |a - x| < |b - x| ∨ |a - x| = |b - x| ∧ even := by
  have mirrored : |-a - -x| < |-b - -x| ∨ |-a - -x| = |-b - -x| ∧ even :=
    closer_of_above (neg_lt_neg less) (by linarith) (fun same => tie (by linarith))
  rwa [neg_sub_neg, neg_sub_neg, abs_sub_comm x a, abs_sub_comm x b] at mirrored

theorem Rounds.closer (rounds : s.Rounds n shift p) (other : r ≠ p) :
    |s.height p - s.units n shift| < |s.height r - s.units n shift| ∨
      |s.height p - s.units n shift| = |s.height r - s.units n shift| ∧
        p % 2 = 0 := by
  rcases Nat.lt_or_gt_of_ne other with less | more
  · obtain ⟨middle, tie⟩ := rounds.below r less
    refine closer_of_above (s.height_strictMono less) ((s.midpoint_le ..).mp middle) ?_
    intro same
    exact tie (Nat.le_antisymm middle ((s.le_midpoint ..).mpr same.ge))
  · obtain ⟨middle, tie⟩ := rounds.above r more
    refine closer_of_below (s.height_strictMono more) ((s.le_midpoint ..).mp middle) ?_
    intro same
    exact tie (Nat.le_antisymm middle ((s.midpoint_le ..).mpr same.ge))

theorem height_zero (s : FloatShape) : s.height 0 = 0 := by
  simp [height, rung]

theorem Rounds.within (rounds : s.Rounds n shift p) :
    |s.height p - s.units n shift| ≤ s.units n shift := by
  have zero : |s.height 0 - s.units n shift| = s.units n shift := by
    rw [height_zero, zero_sub, abs_neg, abs_of_nonneg (s.units_nonneg ..)]
  by_cases least : 0 = p
  · rw [← least, zero]
  · rw [← zero]
    rcases rounds.closer least with nearer | ⟨same, _⟩
    · rw [zero] at nearer ⊢
      exact nearer.le
    · rw [zero] at same ⊢
      exact same.le

theorem Rounds.nearestEven (rounds : s.Rounds n shift p) (fraction : 0 < s.fractionBits)
    (small : p < s.signWeight) (negative : Bool) :
    s.NearestEven (signed negative (s.units n shift)) (s.withSign negative p) := by
  intro other finite different
  rw [significand_even fraction, unsigned_withSign negative small]
  rw [exact_withSign negative small] at different ⊢
  rw [signed_sub, abs_signed]
  rcases s.exact_cases negative other with aligned | ⟨opposite, positive⟩
  · rw [aligned] at different ⊢
    rw [signed_sub, abs_signed]
    apply rounds.closer
    intro same
    exact different (congrArg (fun p => signed negative (s.height p)) same)
  · -- A number on the other side of zero is further away than zero is.
    have apart : |s.exact other - signed negative (s.units n shift)| =
        s.height (s.unsigned other) + s.units n shift := by
      have sum : s.exact other - signed negative (s.units n shift) =
          -signed negative (s.height (s.unsigned other) + s.units n shift) := by
        rw [opposite]
        unfold signed
        ring
      rw [sum, abs_neg, abs_signed, abs_of_nonneg (add_nonneg positive.le (s.units_nonneg ..))]
    rw [apart]
    have := rounds.within
    exact Or.inl (by linarith)

/-- Numbers from here on are too large: the midpoint of the largest finite number and the one that
would be the next. -/
def limit (s : FloatShape) : ℚ := (s.height (s.infinity - 1) + s.height s.infinity) / 2

section Conversion

variable {t : FloatShape} {bits : Nat}

theorem units_convert (s t : FloatShape) (bits : Nat) :
    t.units (s.magnitude bits * 2 ^ (t.scale - s.scale)) (s.scale - t.scale) = |s.exact bits| := by
  have finer : (2 : ℚ) ^ (t.scale - s.scale) ≠ 0 := by positivity
  rw [abs_exact, height, rung_unsigned, units, div_div, ← pow_add, Nat.sub_add_eq_max, max_comm,
    ← Nat.sub_add_eq_max, pow_add]
  push_cast
  rw [mul_comm, mul_div_mul_left _ _ finer]

theorem convert_finite (finite : s.isFinite bits) :
    ∃ n shift, t.units n shift = |s.exact bits| ∧
      s.convert t bits = t.withSign (s.isNegative bits) (min (t.unbounded n shift) t.infinity) := by
  refine ⟨_, _, units_convert s t bits, ?_⟩
  simp only [isFinite, decide_eq_true_eq] at finite
  have number : s.isNaN bits = false := by
    simp only [isNaN, decide_eq_false_iff_not]
    omega
  have bounded : s.isInfinite bits = false := by
    simp only [isInfinite, beq_eq_false_iff_ne]
    omega
  simp only [convert, number, bounded, nearest_eq, Bool.false_eq_true, if_false]

theorem convert_isInfinite (exponent : 0 < t.exponentBits) (fraction : 0 < t.fractionBits)
    (finite : s.isFinite bits) :
    t.isInfinite (s.convert t bits) = true ↔ t.limit ≤ |s.exact bits| := by
  obtain ⟨n, shift, number, converted⟩ := convert_finite (t := t) finite
  have small : min (t.unbounded n shift) t.infinity < t.signWeight :=
    Nat.lt_of_le_of_lt (Nat.min_le_right ..) (infinity_lt_signWeight t)
  rw [converted, isInfinite, unsigned_withSign _ small, beq_iff_eq, min_eq_right_iff,
    infinity_le_unbounded exponent fraction, midpoint_le, number, limit, div_le_iff₀ two_pos,
    mul_comm 2]

/-- A finite number that is not too large is rounded to the nearest one and keeps its sign. -/
theorem convert_nearest (exponent : 0 < t.exponentBits) (fraction : 0 < t.fractionBits)
    (finite : s.isFinite bits) (below : |s.exact bits| < t.limit) :
    t.isFinite (s.convert t bits) ∧ t.isNegative (s.convert t bits) = s.isNegative bits ∧
      t.NearestEven (s.exact bits) (s.convert t bits) := by
  obtain ⟨n, shift, number, converted⟩ := convert_finite (t := t) finite
  have short : t.unbounded n shift < t.infinity := by
    by_contra reached
    rw [not_lt, infinity_le_unbounded exponent fraction, midpoint_le, number] at reached
    rw [limit] at below
    linarith
  have small := Nat.lt_trans short (infinity_lt_signWeight t)
  have same : s.exact bits = signed (s.isNegative bits) (t.units n shift) := by
    rw [number, abs_exact, exact_eq]
  rw [converted, Nat.min_eq_left short.le, same]
  refine ⟨?_, isNegative_withSign _ small,
    (unbounded_rounds fraction n shift).nearestEven fraction small _⟩
  rw [isFinite, unsigned_withSign _ small, decide_eq_true_eq]
  exact short

end Conversion

end FloatShape
end BinaryRecord
