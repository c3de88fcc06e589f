import BinaryRecord.Quadword
import Mathlib.Tactic.Ring

/-!
64-bit integers and their conversions into each other. An integer is reduced modulo 2 ^ 64 once, when
its pattern is made. From then on every conversion keeps the pattern, and at most reads it under
another signedness.
-/
namespace BinaryRecord
namespace Quadword

def InRange (unsigned : Bool) (n : Int) : Prop :=
  if unsigned then 0 ≤ n ∧ n < 2 ^ 64 else -2 ^ 63 ≤ n ∧ n < 2 ^ 63

instance (unsigned : Bool) (n : Int) : Decidable (InRange unsigned n) := by
  unfold InRange
  infer_instance

theorem pattern_lt (x : Quadword) : x.pattern < 2 ^ 64 := x.bits.isLt

theorem low_lt (x : Quadword) : x.low < 2 ^ 32 := Nat.mod_lt _ (by decide)

theorem high_lt (x : Quadword) : x.high < 2 ^ 32 := by
  have := x.pattern_lt
  unfold high
  omega

theorem value_inRange (x : Quadword) : InRange x.unsigned x.value := by
  obtain ⟨bits, unsigned⟩ := x
  cases unsigned with
  | false => exact ⟨bits.le_toInt, bits.toInt_lt⟩
  | true =>
    have := bits.isLt
    change (0 : Int) ≤ bits.toNat ∧ (bits.toNat : Int) < 2 ^ 64
    omega

theorem value_emod (x : Quadword) : x.value % 2 ^ 64 = x.pattern := by
  obtain ⟨bits, unsigned⟩ := x
  have := bits.isLt
  cases unsigned with
  | false =>
    change bits.toInt % 2 ^ 64 = bits.toNat
    rw [BitVec.toInt_eq_toNat_cond]
    split <;> omega
  | true =>
    change (bits.toNat : Int) % 2 ^ 64 = bits.toNat
    omega

theorem InRange.unique {unsigned : Bool} {n m : Int} (one : InRange unsigned n)
    (other : InRange unsigned m) (congruent : n % 2 ^ 64 = m % 2 ^ 64) : n = m := by
  unfold InRange at one other
  cases unsigned <;> simp only [if_true, Bool.false_eq_true, if_false] at one other <;> omega

theorem eq_value_iff {x : Quadword} {n : Int} :
    n = x.value ↔ InRange x.unsigned n ∧ n % 2 ^ 64 = x.pattern := by
  constructor
  · rintro rfl
    exact ⟨x.value_inRange, x.value_emod⟩
  · rintro ⟨range, congruent⟩
    exact range.unique x.value_inRange (congruent.trans x.value_emod.symm)

theorem ofInt_pattern (x : Quadword) : ofInt x.pattern x.unsigned = x := by
  rw [ofInt, pattern, BitVec.ofInt_natCast, BitVec.ofNat_toNat, BitVec.setWidth_eq]

theorem ofInt_value (x : Quadword) : ofInt x.value x.unsigned = x := by
  obtain ⟨bits, unsigned⟩ := x
  unfold ofInt value
  cases unsigned <;> simp

theorem value_ofInt {unsigned : Bool} {n : Int} (range : InRange unsigned n) :
    (ofInt n unsigned).value = n :=
  (eq_value_iff.mpr ⟨range, (pattern_ofInt n unsigned).symm⟩).symm

theorem withSign_eq (x : Quadword) (unsigned : Bool) : x.withSign unsigned = ⟨x.bits, unsigned⟩ :=
  congrArg (Quadword.mk · unsigned) (congrArg bits x.ofInt_value)

theorem ofWords_words (x : Quadword) (unsigned : Bool) :
    ofWords x.low x.high unsigned = ⟨x.bits, unsigned⟩ := by
  have low := x.low_lt
  have high := x.high_lt
  have whole : (x.high : Int) % 2 ^ 32 * 2 ^ 32 + x.low % 2 ^ 32 = x.pattern := by
    rw [x.pattern_eq_words]
    omega
  rw [ofWords, whole]
  exact congrArg (Quadword.mk · unsigned) (congrArg bits x.ofInt_pattern)

/-- Of each word only the 32 low bits are kept, whatever its sign and size. -/
theorem words_ofWords (low high : Int) (unsigned : Bool) :
    ((ofWords low high unsigned).low : Int) = low % 2 ^ 32 ∧
      ((ofWords low high unsigned).high : Int) = high % 2 ^ 32 := by
  have residue := pattern_ofInt (high % 2 ^ 32 * 2 ^ 32 + low % 2 ^ 32) unsigned
  change ((ofWords low high unsigned).pattern : Int) = _ at residue
  unfold Quadword.low Quadword.high
  omega

/-- The ways to make an integer from another one. -/
inductive Conversion where
  | wrap (unsigned : Bool)
  | toSigned
  | toUnsigned
  | promote (unsigned : Bool)
  /-- Written down and built again. -/
  | save
  /-- Taken apart into its words and put together again. -/
  | split (unsigned : Bool)
  deriving DecidableEq

namespace Conversion

def apply (x : Quadword) : Conversion → Quadword
  | wrap unsigned => x.withSign unsigned
  | toSigned => x.asSigned
  | toUnsigned => x.asUnsigned
  | promote unsigned => (x.promoted unsigned).1
  | save => restore x.saved
  | split unsigned => ofWords x.low x.high unsigned

def sign? : Conversion → Option Bool
  | wrap unsigned | promote unsigned | split unsigned => some unsigned
  | toSigned => some false
  | toUnsigned => some true
  | save => none

def run (x : Quadword) (conversions : List Conversion) : Quadword := conversions.foldl apply x

def lastSign (first : Bool) (conversions : List Conversion) : Bool :=
  conversions.foldl (fun unsigned conversion => conversion.sign?.getD unsigned) first

theorem apply_eq (x : Quadword) (conversion : Conversion) :
    conversion.apply x = ⟨x.bits, conversion.sign?.getD x.unsigned⟩ := by
  cases conversion with
  | wrap unsigned => exact x.withSign_eq unsigned
  | toSigned => exact x.withSign_eq false
  | toUnsigned => exact x.withSign_eq true
  | promote unsigned =>
    change (x.promoted unsigned).1 = ⟨x.bits, unsigned⟩
    unfold promoted
    split
    · rename_i same
      rw [← same]
    · exact x.withSign_eq unsigned
  | save => exact x.ofInt_value
  | split unsigned => exact x.ofWords_words unsigned

theorem run_eq (x : Quadword) (conversions : List Conversion) :
    run x conversions = ⟨x.bits, lastSign x.unsigned conversions⟩ := by
  induction conversions generalizing x with
  | nil => rfl
  | cons conversion conversions ih =>
    change run (conversion.apply x) conversions = _
    rw [ih, apply_eq]
    rfl

end Conversion

/-- However an integer is converted, its bits stay those of the integer at the start, its signedness
is the one asked for last, and it is the only integer of that signedness with these bits. The bits
are two words of 32 bits, and of the words that make an integer no other bits are kept. -/
theorem conversions_lossless (v : Int) (unsigned : Bool) (conversions : List Conversion) :
    let x := Conversion.run (ofInt v unsigned) conversions
    ((x.pattern : Int) = v % 2 ^ 64 ∧ x.unsigned = Conversion.lastSign unsigned conversions) ∧
    (∀ n, n = x.value ↔ InRange x.unsigned n ∧ n % 2 ^ 64 = v % 2 ^ 64) ∧
    (x.pattern = x.high * 2 ^ 32 + x.low ∧ x.high < 2 ^ 32 ∧ x.low < 2 ^ 32) ∧
    ∀ low high sign, (ofWords low high sign).unsigned = sign ∧
      ((ofWords low high sign).low : Int) = low % 2 ^ 32 ∧
      ((ofWords low high sign).high : Int) = high % 2 ^ 32 := by
  intro x
  have converted : x = ⟨(ofInt v unsigned).bits, Conversion.lastSign unsigned conversions⟩ :=
    Conversion.run_eq (ofInt v unsigned) conversions
  have kept : x.pattern = (ofInt v unsigned).pattern := by
    rw [converted]
    rfl
  have residue : (x.pattern : Int) = v % 2 ^ 64 := by
    rw [kept]
    exact pattern_ofInt v unsigned
  refine ⟨⟨residue, ?_⟩, ?_, ⟨x.pattern_eq_words, x.high_lt, x.low_lt⟩, ?_⟩
  · rw [converted]
  · intro n
    rw [← residue]
    exact eq_value_iff
  · intro low high sign
    exact ⟨rfl, words_ofWords low high sign⟩

end Quadword
end BinaryRecord
