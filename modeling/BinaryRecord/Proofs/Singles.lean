import BinaryRecord.Proofs.Canonical
import BinaryRecord.Proofs.Nearest
import BinaryRecord.Proofs.TextFields
import BinaryRecord.Proofs.Words

/-!
Singles in a storage. A double is stored as the single nearest to it, and refused where that would
be an infinity that it is not. A single that was read is stored as it stood.
-/
namespace BinaryRecord

open Storage Bytes

namespace FloatShape

theorem withSign_lt {s : FloatShape} (negative : Bool) {p : Nat} (small : p < s.signWeight) :
    s.withSign negative p < 2 * s.signWeight := by
  unfold withSign
  split <;> omega

theorem limit_single : single.limit = 2 ^ 128 - 2 ^ 103 := by
  have last : single.rung (single.infinity - 1) = (2 ^ 24 - 1) * 2 ^ 253 := by decide
  have next : single.rung single.infinity = 2 ^ 24 * 2 ^ 253 := by decide
  have scale : single.scale = 149 := by decide
  rw [limit, height, height, last, next, scale]
  norm_num

end FloatShape

namespace Number

variable {order : ByteOrder} {bs : Bytes} {offset : Int} {bits : UInt64} {narrow : Nat}

theorem pattern_narrowed (order : ByteOrder) (bits : UInt64) :
    Number.single.pattern order (.float bits) =
    if FloatShape.double.isFinite bits.toNat ∧
      FloatShape.single.isInfinite (FloatShape.double.convert .single bits.toNat) then
      .error (.plain (.tooLarge (.float bits) 4))
    else .ok (FloatShape.double.convert .single bits.toNat) := rfl

theorem pattern_tooLarge (order : ByteOrder) (finite : FloatShape.double.isFinite bits.toNat)
    (large : FloatShape.single.limit ≤ |FloatShape.double.exact bits.toNat|) :
    Number.single.pattern order (.float bits) = .error (.plain (.tooLarge (.float bits) 4)) := by
  have infinite := (FloatShape.convert_isInfinite (by decide) (by decide) finite).mpr large
  rw [pattern_narrowed, if_pos ⟨finite, infinite⟩]

theorem pattern_bounded (order : ByteOrder)
    (bounded : FloatShape.single.isInfinite (FloatShape.double.convert .single bits.toNat) = false) :
    Number.single.pattern order (.float bits) = .ok (FloatShape.double.convert .single bits.toNat) := by
  rw [pattern_narrowed, bounded]
  exact if_neg fun infinite => Bool.false_ne_true infinite.2

theorem pattern_nearest (order : ByteOrder) (finite : FloatShape.double.isFinite bits.toNat)
    (below : |FloatShape.double.exact bits.toNat| < FloatShape.single.limit) :
    ∃ narrow < 2 ^ 32, Number.single.pattern order (.float bits) = .ok narrow ∧
      FloatShape.single.isFinite narrow ∧
      FloatShape.single.isNegative narrow = FloatShape.double.isNegative bits.toNat ∧
      FloatShape.single.NearestEven (FloatShape.double.exact bits.toNat) narrow := by
  have bounded : FloatShape.single.isInfinite (FloatShape.double.convert .single bits.toNat) =
      false := by
    rw [Bool.eq_false_iff, ne_eq, FloatShape.convert_isInfinite (by decide) (by decide) finite]
    exact below.not_ge
  refine ⟨FloatShape.double.convert .single bits.toNat, ?_, pattern_bounded order bounded,
    FloatShape.convert_nearest (by decide) (by decide) finite below⟩
  obtain ⟨n, shift, _, converted⟩ := FloatShape.convert_finite (t := .single) finite
  rw [converted]
  exact FloatShape.withSign_lt _
    (Nat.lt_of_le_of_lt (Nat.min_le_right ..) FloatShape.single.infinity_lt_signWeight)

theorem pattern_infinite (order : ByteOrder)
    (infinite : FloatShape.double.isInfinite bits.toNat) :
    ∃ narrow < 2 ^ 32, Number.single.pattern order (.float bits) = .ok narrow ∧
      FloatShape.single.isInfinite narrow ∧
      FloatShape.single.isNegative narrow = FloatShape.double.isNegative bits.toNat := by
  have small := FloatShape.single.infinity_lt_signWeight
  let narrow := FloatShape.single.withSign (FloatShape.double.isNegative bits.toNat)
    FloatShape.single.infinity
  have sign : FloatShape.single.isNegative narrow = FloatShape.double.isNegative bits.toNat :=
    FloatShape.isNegative_withSign _ small
  have size : FloatShape.single.isInfinite narrow := by
    rw [FloatShape.isInfinite, FloatShape.unsigned_withSign _ small, beq_self_eq_true]
  have bounded : narrow < 2 ^ 32 := FloatShape.withSign_lt _ small
  exact ⟨narrow, bounded, pattern_single order bounded ⟨sign.symm, Or.inl ⟨infinite, size⟩⟩, size,
    sign⟩

theorem single_kept (order : ByteOrder) (inside : Inside bs offset 4) (small : narrow < 2 ^ 32)
    (number : FloatShape.single.isNaN narrow = false) :
    let stored := bs.overlay offset.toNat (Number.single.encode order narrow)
    ∃ wide, Number.single.read order stored offset = .ok (.float wide) ∧
      Number.single.write order offset (.float wide) stored = .ok () stored ∧
      Number.single.write order offset (.float wide) bs = .ok () stored := by
  intro stored
  obtain ⟨wide, same⟩ := exists_double number
  have found := pattern_single order small same
  obtain ⟨there, window⟩ := inside.overlay (length_encode .single order narrow)
  refine ⟨wide, ?_, ?_, write_of_pattern found inside⟩
  · rw [read_ok]
    refine ⟨there, ?_⟩
    change Number.single.decode order (stored.window offset.toNat 4) = _
    rw [window, decode_encode _ _ small, value_single same]
  · rw [write_of_pattern found there]
    have kept := overlay_window stored offset.toNat 4 there.fits
    rw [window] at kept
    rw [kept]

/-- A finite double is too large for a single from the midpoint above the largest one on, and is
refused without effect. Any other one is stored as the nearest single, of two as the even one, and
keeps its sign, also if it becomes zero. An infinity is stored as one, and a single that was read
is stored by the bytes that it was read from. -/
theorem single_exact (order : ByteOrder) {bs : Bytes} {offset : Int} (inside : Inside bs offset 4) :
    let stored := fun narrow => bs.overlay offset.toNat (Number.single.encode order narrow)
    (∀ bits : UInt64, FloatShape.double.isFinite bits.toNat →
      ((∃ fault, Number.single.write order offset (.float bits) bs = .error (.plain fault) bs ∧
        fault.kind = .overflow) ↔ 2 ^ 128 - 2 ^ 103 ≤ |FloatShape.double.exact bits.toNat|) ∧
      (|FloatShape.double.exact bits.toNat| < 2 ^ 128 - 2 ^ 103 → ∃ narrow < 2 ^ 32,
        Number.single.write order offset (.float bits) bs = .ok () (stored narrow) ∧
        FloatShape.single.isFinite narrow ∧
        FloatShape.single.isNegative narrow = FloatShape.double.isNegative bits.toNat ∧
        FloatShape.single.NearestEven (FloatShape.double.exact bits.toNat) narrow)) ∧
    (∀ bits : UInt64, FloatShape.double.isInfinite bits.toNat → ∃ narrow < 2 ^ 32,
      Number.single.write order offset (.float bits) bs = .ok () (stored narrow) ∧
      FloatShape.single.isInfinite narrow ∧
      FloatShape.single.isNegative narrow = FloatShape.double.isNegative bits.toNat) ∧
    ∀ narrow < 2 ^ 32, FloatShape.single.isNaN narrow = false →
      ∃ wide, Number.single.read order (stored narrow) offset = .ok (.float wide) ∧
        Number.single.write order offset (.float wide) (stored narrow) = .ok () (stored narrow) ∧
        Number.single.write order offset (.float wide) bs = .ok () (stored narrow) := by
  intro stored
  rw [← FloatShape.limit_single]
  refine ⟨?_, ?_, fun narrow small number => single_kept order inside small number⟩
  · intro bits finite
    have nearest : |FloatShape.double.exact bits.toNat| < FloatShape.single.limit →
        ∃ narrow < 2 ^ 32,
        Number.single.write order offset (.float bits) bs = .ok () (stored narrow) ∧
        FloatShape.single.isFinite narrow ∧
        FloatShape.single.isNegative narrow = FloatShape.double.isNegative bits.toNat ∧
        FloatShape.single.NearestEven (FloatShape.double.exact bits.toNat) narrow := by
      intro below
      obtain ⟨narrow, small, found, properties⟩ := pattern_nearest order finite below
      exact ⟨narrow, small, write_of_pattern found inside, properties⟩
    refine ⟨⟨?_, ?_⟩, nearest⟩
    · rintro ⟨fault, refused, _⟩
      by_contra below
      obtain ⟨narrow, _, written, _⟩ := nearest (not_le.mp below)
      cases refused.symm.trans written
    · intro large
      exact ⟨_, write_of_refused (pattern_tooLarge order finite large) inside, rfl⟩
  · intro bits infinite
    obtain ⟨narrow, small, found, properties⟩ := pattern_infinite order infinite
    exact ⟨narrow, small, write_of_pattern found inside, properties⟩

/-- The midpoint above the largest single is too large, and the double before it is not. A double
in the middle between one and the next single is stored as one, the greatest one below zero as a
zero with its sign, and the least single above zero is kept. -/
theorem single_exact_largest :
    let bs : Bytes := [9, 9, 9, 9, 9, 9]
    let midpoint : UInt64 := 0x47EFFFFFF0000000
    let below : UInt64 := 0x47EFFFFFEFFFFFFF
    let half : UInt64 := 0x3FF0000010000000
    let least : UInt64 := 0x8000000000000001
    2 ^ 128 - 2 ^ 103 ≤ |FloatShape.double.exact midpoint.toNat| ∧
      (∃ fault, Number.single.write .big 1 (.float midpoint) bs = .error (.plain fault) bs ∧
        fault.kind = .overflow) ∧
      |FloatShape.double.exact below.toNat| < 2 ^ 128 - 2 ^ 103 ∧
      Number.single.write .big 1 (.float below) bs = .ok () [9, 0x7F, 0x7F, 0xFF, 0xFF, 9] ∧
      (∃ narrow, bs.overlay 1 (Number.single.encode .big narrow) = [9, 0x3F, 0x80, 0, 0, 9] ∧
        FloatShape.single.NearestEven (FloatShape.double.exact half.toNat) narrow) ∧
      Number.single.write .big 1 (.float least) bs = .ok () [9, 0x80, 0, 0, 0, 9] ∧
      ∃ wide, Number.single.read .big [9, 0, 0, 0, 1, 9] 1 = .ok (.float wide) ∧
        Number.single.write .big 1 (.float wide) bs = .ok () [9, 0, 0, 0, 1, 9] := by
  intro bs midpoint below half least
  have inside : Inside bs 1 4 := by decide
  obtain ⟨finite, _, kept⟩ := single_exact .big inside
  have refused : ∃ fault, Number.single.write .big 1 (.float midpoint) bs =
      .error (.plain fault) bs ∧ fault.kind = .overflow := by
    refine ⟨.tooLarge (.float midpoint) 4, write_of_refused ?_ inside, rfl⟩
    rw [pattern_narrowed]
    exact if_pos (by decide +kernel)
  have written : ∀ {bits : UInt64} (narrow : Nat),
      FloatShape.double.convert .single bits.toNat = narrow →
        FloatShape.single.isInfinite narrow = false →
          Number.single.write .big 1 (.float bits) bs =
            .ok () (bs.overlay 1 (Number.single.encode .big narrow)) := by
    rintro bits _ rfl bounded
    exact write_of_pattern (pattern_bounded .big bounded) inside
  have largest : Number.single.write .big 1 (.float below) bs =
      .ok () [9, 0x7F, 0x7F, 0xFF, 0xFF, 9] := written 0x7F7FFFFF (by decide +kernel) rfl
  have one : Number.single.write .big 1 (.float half) bs =
      .ok () [9, 0x3F, 0x80, 0, 0, 9] := written 0x3F800000 (by decide +kernel) rfl
  have small : ∀ {bits : UInt64} {after : Bytes}, FloatShape.double.isFinite bits.toNat →
      Number.single.write .big 1 (.float bits) bs = .ok () after →
        |FloatShape.double.exact bits.toNat| < 2 ^ 128 - 2 ^ 103 := by
    intro bits after number written
    by_contra large
    obtain ⟨_, refused, _⟩ := (finite bits number).1.mpr (not_lt.mp large)
    cases written.symm.trans refused
  obtain ⟨narrow, _, stored, _, _, nearest⟩ := (finite half (by decide)).2 (small (by decide) one)
  obtain ⟨wide, read, _, back⟩ := kept 1 (by decide) (by decide)
  refine ⟨(finite midpoint (by decide)).1.mp refused, refused, small (by decide) largest, largest,
    ⟨narrow, ?_, nearest⟩, written 0x80000000 (by decide +kernel) rfl, wide, read, back⟩
  exact (EStateM.Result.ok.inj (stored.symm.trans one)).2

end Number
end BinaryRecord
