import BinaryRecord.Floating.Shape
import Mathlib.Tactic.Ring

/-!
Conversions between float shapes that lose nothing. A magnitude that a shape represents is rounded
to its own pattern; every single is a double, so a single survives being widened and narrowed.
-/
namespace BinaryRecord

theorem roundQuotient_mul (q d : Nat) (positive : 0 < d) : roundQuotient (q * d) d = q := by
  simp [roundQuotient, Nat.mul_mod_left, Nat.mul_div_cancel q positive, positive]

namespace FloatShape

variable {s : FloatShape}

/-- The pattern `step * 2 ^ fractionBits + q` of a magnitude `q * 2 ^ step` with a full significand,
which only the least step may lack. -/
def Normal (s : FloatShape) (q step : Nat) : Prop :=
  q < 2 ^ (s.fractionBits + 1) ∧ (2 ^ s.fractionBits ≤ q ∨ step = 0)

theorem normal_exists (s : FloatShape) (q k : Nat) (small : q < 2 ^ (s.fractionBits + 1)) :
    ∃ m step, s.Normal m step ∧ m * 2 ^ step = q * 2 ^ k ∧ step ≤ k := by
  induction k generalizing q with
  | zero => exact ⟨q, 0, ⟨small, Or.inr rfl⟩, rfl, Nat.le_refl 0⟩
  | succ k ih =>
    by_cases full : 2 ^ s.fractionBits ≤ q
    · exact ⟨q, k + 1, ⟨small, Or.inl full⟩, rfl, Nat.le_refl _⟩
    · have doubled : 2 * q < 2 ^ (s.fractionBits + 1) := by rw [Nat.pow_succ]; omega
      obtain ⟨m, step, normal, same, below⟩ := ih (2 * q) doubled
      refine ⟨m, step, normal, ?_, by omega⟩
      rw [same]
      ring

theorem infinity_lt_signWeight (s : FloatShape) : s.infinity < s.signWeight := by
  have power : 0 < 2 ^ s.exponentBits := Nat.two_pow_pos _
  have field : 0 < 2 ^ s.fractionBits := Nat.two_pow_pos _
  rw [infinity, signWeight, Nat.pow_add]
  exact Nat.mul_lt_mul_of_pos_right (by omega) field

theorem fractionField_unsigned (s : FloatShape) (bits : Nat) :
    s.unsigned bits % 2 ^ s.fractionBits = s.fractionField bits := by
  have divides : 2 ^ s.fractionBits ∣ s.signWeight := Nat.pow_dvd_pow 2 (by omega)
  exact Nat.mod_mod_of_dvd bits divides

theorem normal_parts (s : FloatShape) (p : Nat) :
    s.Normal (if p / 2 ^ s.fractionBits = 0 then p % 2 ^ s.fractionBits
        else 2 ^ s.fractionBits + p % 2 ^ s.fractionBits) (p / 2 ^ s.fractionBits - 1) ∧
      (p / 2 ^ s.fractionBits - 1) * 2 ^ s.fractionBits +
        (if p / 2 ^ s.fractionBits = 0 then p % 2 ^ s.fractionBits
          else 2 ^ s.fractionBits + p % 2 ^ s.fractionBits) = p := by
  have field : p % 2 ^ s.fractionBits < 2 ^ s.fractionBits := Nat.mod_lt _ (Nat.two_pow_pos _)
  have parts := Nat.div_add_mod p (2 ^ s.fractionBits)
  unfold Normal
  rw [Nat.pow_succ]
  cases exponent : p / 2 ^ s.fractionBits with
  | zero =>
    rw [exponent] at parts
    simp only [if_true]
    exact ⟨⟨by omega, Or.inr trivial⟩, by simpa using parts⟩
  | succ e =>
    rw [exponent, Nat.mul_succ, Nat.mul_comm] at parts
    rw [if_neg (Nat.succ_ne_zero e), Nat.add_sub_cancel]
    exact ⟨⟨by omega, Or.inl (by omega)⟩, by omega⟩

theorem normal_fields (s : FloatShape) (bits : Nat) :
    s.Normal (s.significand bits) (s.quantum bits) ∧
      s.quantum bits * 2 ^ s.fractionBits + s.significand bits = s.unsigned bits := by
  have parts := s.normal_parts (s.unsigned bits)
  rw [fractionField_unsigned] at parts
  exact parts

theorem nearest_normal {q step : Nat} (normal : s.Normal q step) (shift : Nat) :
    s.nearest (q * 2 ^ step * 2 ^ shift) shift =
      min (step * 2 ^ s.fractionBits + q) s.infinity := by
  have log : (q * 2 ^ step * 2 ^ shift).log2 - (shift + s.fractionBits) = step := by
    by_cases zero : q = 0
    · have least : step = 0 := by
        rcases normal.2 with full | least
        · have := Nat.two_pow_pos s.fractionBits
          omega
        · exact least
      simp [zero, least]
    · have nonzero : q * 2 ^ step * 2 ^ shift ≠ 0 := by
        simp [zero]
      have above : (q * 2 ^ step * 2 ^ shift).log2 < s.fractionBits + 1 + step + shift := by
        rw [Nat.log2_lt nonzero, Nat.pow_add, Nat.pow_add]
        exact Nat.mul_lt_mul_of_pos_right
          (Nat.mul_lt_mul_of_pos_right normal.1 (Nat.two_pow_pos _)) (Nat.two_pow_pos _)
      rcases normal.2 with full | least
      · have below : s.fractionBits + step + shift ≤ (q * 2 ^ step * 2 ^ shift).log2 := by
          rw [Nat.le_log2 nonzero, Nat.pow_add, Nat.pow_add]
          exact Nat.mul_le_mul_right _ (Nat.mul_le_mul_right _ full)
        omega
      · omega
  rw [nearest, log]
  have grid : q * 2 ^ step * 2 ^ shift = q * 2 ^ (shift + step) := by rw [Nat.pow_add]; ring
  simp only [grid, roundQuotient_mul q _ (Nat.two_pow_pos (shift + step))]

theorem nearest_magnitude {bits : Nat} (finite : s.isFinite bits) (shift : Nat) :
    s.nearest (s.magnitude bits * 2 ^ shift) shift = s.unsigned bits := by
  obtain ⟨normal, pattern⟩ := normal_fields s bits
  rw [magnitude, nearest_normal normal, pattern]
  simp only [isFinite, decide_eq_true_eq] at finite
  omega

/-- The magnitude of an unsigned pattern, also of one above all finite ones. -/
def rung (s : FloatShape) (p : Nat) : Nat :=
  (if p / 2 ^ s.fractionBits = 0 then p % 2 ^ s.fractionBits
    else 2 ^ s.fractionBits + p % 2 ^ s.fractionBits) * 2 ^ (p / 2 ^ s.fractionBits - 1)

theorem rung_unsigned (s : FloatShape) (bits : Nat) : s.rung (s.unsigned bits) = s.magnitude bits := by
  rw [rung, fractionField_unsigned]
  rfl

theorem rung_normal {q step : Nat} (normal : s.Normal q step) :
    s.rung (step * 2 ^ s.fractionBits + q) = q * 2 ^ step := by
  have field : 0 < 2 ^ s.fractionBits := Nat.two_pow_pos _
  have upper := normal.1
  rw [Nat.pow_succ] at upper
  have exponent : (step * 2 ^ s.fractionBits + q) / 2 ^ s.fractionBits =
      q / 2 ^ s.fractionBits + step := by
    rw [Nat.add_comm, Nat.add_mul_div_right _ _ field]
  have fraction : (step * 2 ^ s.fractionBits + q) % 2 ^ s.fractionBits = q % 2 ^ s.fractionBits := by
    rw [Nat.add_comm, Nat.add_mul_mod_self_right]
  rw [rung, exponent, fraction]
  by_cases full : 2 ^ s.fractionBits ≤ q
  · have one : q / 2 ^ s.fractionBits = 1 := by
      rw [Nat.div_eq_iff field]
      omega
    have rest := Nat.div_add_mod q (2 ^ s.fractionBits)
    rw [one, Nat.mul_one] at rest
    rw [one, if_neg (by omega), rest, Nat.add_sub_cancel_left]
  · have least : step = 0 := normal.2.resolve_left full
    have none : q / 2 ^ s.fractionBits = 0 := Nat.div_eq_of_lt (by omega)
    rw [none, least, if_pos rfl, Nat.mod_eq_of_lt (by omega)]

theorem magnitude_normal {q step : Nat} (normal : s.Normal q step)
    (finite : step * 2 ^ s.fractionBits + q < s.infinity) :
    s.magnitude (step * 2 ^ s.fractionBits + q) = q * 2 ^ step := by
  have unsigned : s.unsigned (step * 2 ^ s.fractionBits + q) = step * 2 ^ s.fractionBits + q :=
    Nat.mod_eq_of_lt (Nat.lt_trans finite (infinity_lt_signWeight s))
  rw [← rung_unsigned, unsigned, rung_normal normal]

theorem isNegative_withSign (negative : Bool) {bits : Nat} (small : bits < s.signWeight) :
    s.isNegative (s.withSign negative bits) = negative := by
  have weight : 0 < s.signWeight := Nat.two_pow_pos _
  cases negative with
  | false => simp [isNegative, withSign, Nat.div_eq_of_lt small]
  | true => simp [isNegative, withSign, Nat.add_div_left _ weight, Nat.div_eq_of_lt small]

theorem unsigned_withSign (negative : Bool) {bits : Nat} (small : bits < s.signWeight) :
    s.unsigned (s.withSign negative bits) = bits := by
  cases negative <;> simp [unsigned, withSign, Nat.mod_eq_of_lt small]

theorem withSign_unsigned {bits : Nat} (small : bits < 2 * s.signWeight) :
    s.withSign (s.isNegative bits) (s.unsigned bits) = bits := by
  have weight : 0 < s.signWeight := Nat.two_pow_pos _
  have parts := Nat.div_add_mod bits s.signWeight
  have sign : bits / s.signWeight < 2 := (Nat.div_lt_iff_lt_mul weight).mpr small
  unfold withSign isNegative unsigned
  by_cases negative : bits / s.signWeight = 1
  · rw [negative] at parts ⊢
    simpa using parts
  · have zero : bits / s.signWeight = 0 :=
      Nat.lt_one_iff.mp (Nat.lt_of_le_of_ne (Nat.le_of_lt_succ sign) negative)
    rw [zero] at parts ⊢
    simpa using parts

theorem magnitude_unsigned {a b : Nat} (same : s.unsigned a = s.unsigned b) :
    s.magnitude a = s.magnitude b := by
  have fraction : s.fractionField a = s.fractionField b := by
    rw [← fractionField_unsigned, ← fractionField_unsigned, same]
  have exponent : s.exponentField a = s.exponentField b := by
    rw [exponentField, exponentField, same]
  simp only [magnitude, significand, quantum, fraction, exponent]

/-- Two patterns of two shapes have one value, which is no NaN. -/
structure SameValue (s t : FloatShape) (a b : Nat) : Prop where
  sign : s.isNegative a = t.isNegative b
  size : (s.isInfinite a ∧ t.isInfinite b) ∨
    (s.isFinite a ∧ t.isFinite b ∧ s.magnitude a * 2 ^ t.scale = t.magnitude b * 2 ^ s.scale)

theorem SameValue.symm {t : FloatShape} {a b : Nat} (same : SameValue s t a b) :
    SameValue t s b a := by
  constructor
  · exact same.sign.symm
  · rcases same.size with ⟨first, second⟩ | ⟨first, second, equal⟩
    · exact Or.inl ⟨second, first⟩
    · exact Or.inr ⟨second, first, equal.symm⟩

theorem SameValue.notNaN {t : FloatShape} {a b : Nat} (same : SameValue s t a b) :
    s.isNaN a = false := by
  unfold isNaN
  rcases same.size with ⟨first, _⟩ | ⟨first, _, _⟩
  · simp only [isInfinite, beq_iff_eq] at first
    simp [first]
  · simp only [isFinite, decide_eq_true_eq] at first
    simp only [decide_eq_false_iff_not]
    omega

theorem common_units {s t : FloatShape} {m n : Nat} (equal : m * 2 ^ t.scale = n * 2 ^ s.scale) :
    m * 2 ^ (t.scale - s.scale) = n * 2 ^ (s.scale - t.scale) := by
  rcases Nat.le_total s.scale t.scale with finer | finer
  · have split : 2 ^ t.scale = 2 ^ (t.scale - s.scale) * 2 ^ s.scale := by
      rw [← Nat.pow_add, Nat.sub_add_cancel finer]
    rw [split, ← Nat.mul_assoc] at equal
    rw [Nat.sub_eq_zero_of_le finer, Nat.pow_zero, Nat.mul_one]
    exact Nat.eq_of_mul_eq_mul_right (Nat.two_pow_pos _) equal
  · have split : 2 ^ s.scale = 2 ^ (s.scale - t.scale) * 2 ^ t.scale := by
      rw [← Nat.pow_add, Nat.sub_add_cancel finer]
    rw [split, ← Nat.mul_assoc] at equal
    rw [Nat.sub_eq_zero_of_le finer, Nat.pow_zero, Nat.mul_one]
    exact Nat.eq_of_mul_eq_mul_right (Nat.two_pow_pos _) equal

theorem convert_sameValue {t : FloatShape} {a b : Nat} (same : SameValue s t a b)
    (small : b < 2 * t.signWeight) : s.convert t a = b := by
  have sizes : (if s.isInfinite a then t.infinity
      else t.nearest (s.magnitude a * 2 ^ (t.scale - s.scale)) (s.scale - t.scale)) =
        t.unsigned b := by
    rcases same.size with ⟨first, second⟩ | ⟨first, second, equal⟩
    · rw [if_pos first]
      simp only [isInfinite, beq_iff_eq] at second
      exact second.symm
    · have finite : s.isInfinite a = false := by
        simp only [isFinite, decide_eq_true_eq] at first
        simp only [isInfinite, beq_eq_false_iff_ne]
        omega
      rw [finite, common_units equal]
      exact nearest_magnitude second _
  rw [convert, same.notNaN, same.sign, sizes]
  exact withSign_unsigned small

theorem single_is_double {bits : Nat} (number : single.isNaN bits = false) :
    ∃ wide, wide < 2 * double.signWeight ∧ SameValue single double bits wide := by
  have positive : double.infinity < double.signWeight := infinity_lt_signWeight double
  by_cases infinite : single.isInfinite bits
  · refine ⟨double.withSign (single.isNegative bits) double.infinity, ?_, ?_, Or.inl ⟨infinite, ?_⟩⟩
    · unfold withSign
      split <;> omega
    · exact (isNegative_withSign _ positive).symm
    · simp [isInfinite, unsigned_withSign _ positive]
  · have finite : single.unsigned bits < single.infinity := by
      simp only [isNaN, decide_eq_false_iff_not] at number
      simp only [isInfinite, beq_iff_eq] at infinite
      omega
    obtain ⟨normal, pattern⟩ := normal_fields single bits
    have shortSignificand : single.significand bits < 2 ^ (double.fractionBits + 1) :=
      Nat.lt_trans normal.1 (by decide)
    obtain ⟨m, step, wideNormal, equal, below⟩ := normal_exists double (single.significand bits)
      (single.quantum bits + (double.scale - single.scale)) shortSignificand
    -- The greatest exponent of a single is far below the greatest one of a double.
    have quantum : single.quantum bits < 254 := by
      have exponent : single.exponentField bits < 255 := by
        rw [exponentField, Nat.div_lt_iff_lt_mul (Nat.two_pow_pos _)]
        exact finite
      unfold FloatShape.quantum
      omega
    have range : double.scale - single.scale = 925 := by decide
    have inside : step * 2 ^ double.fractionBits + m < double.infinity := by
      have upper := wideNormal.1
      have bound : step ≤ 1178 := by omega
      have shape : double.infinity = 2047 * 2 ^ double.fractionBits := by decide
      rw [shape, Nat.pow_succ] at *
      have := Nat.mul_le_mul_right (2 ^ double.fractionBits) bound
      omega
    have small := Nat.lt_trans inside positive
    refine ⟨double.withSign (single.isNegative bits) (step * 2 ^ double.fractionBits + m),
      ?_, (isNegative_withSign _ small).symm, Or.inr ⟨?_, ?_, ?_⟩⟩
    · unfold withSign
      split <;> omega
    · simpa [isFinite] using finite
    · simpa [isFinite, unsigned_withSign _ small] using inside
    · have magnitude : double.magnitude
          (double.withSign (single.isNegative bits) (step * 2 ^ double.fractionBits + m)) =
            m * 2 ^ step := by
        rw [magnitude_unsigned (s := double) (b := step * 2 ^ double.fractionBits + m)
          ((unsigned_withSign _ small).trans (Nat.mod_eq_of_lt small).symm)]
        exact magnitude_normal wideNormal inside
      have scales : double.scale = single.scale + (double.scale - single.scale) := by decide
      rw [magnitude, equal, FloatShape.magnitude]
      generalize double.scale - single.scale = gap at scales
      rw [scales, Nat.pow_add, Nat.pow_add]
      ring

end FloatShape
end BinaryRecord
