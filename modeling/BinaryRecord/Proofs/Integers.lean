import BinaryRecord.Proofs.Canonical
import BinaryRecord.Proofs.Mirror
import BinaryRecord.Proofs.TextFields
import BinaryRecord.Proofs.Words

/-!
Integers of a width in a storage. An integer is written where its window is inside and its kind has
it, and refused untouched elsewhere. The bytes are those of its residue, so the two kinds differ
only in which integers they have.
-/
namespace BinaryRecord

open Storage Bytes

namespace Number

def ofWidth (signed : Bool) (width : Nat) : Number := if signed then .int width else .uint width

def InRange (signed : Bool) (width : Nat) (n : Int) : Prop :=
  if signed then -2 ^ (8 * width - 1) ≤ n ∧ n < 2 ^ (8 * width - 1)
  else 0 ≤ n ∧ n < 2 ^ (8 * width)

instance (signed : Bool) (width : Nat) (n : Int) : Decidable (InRange signed width n) := by
  unfold InRange
  infer_instance

/-- The pattern of an integer, whichever kind has it. -/
def residue (width : Nat) (n : Int) : Nat := (n % 2 ^ (8 * width)).toNat

variable {signed : Bool} {width : Nat} {v : Value} {n : Int} {order : ByteOrder} {bs : Bytes}
  {offset : Int}

theorem width_ofWidth (signed : Bool) (width : Nat) : (ofWidth signed width).width = width := by
  cases signed <;> rfl

theorem byte_power (width : Nat) : 256 ^ width = 2 ^ (8 * width) := by
  rw [Nat.pow_mul]

theorem half_power (positive : 0 < width) : 256 ^ width / 2 = 2 ^ (8 * width - 1) := by
  have double : 2 ^ (8 * width) = 2 * 2 ^ (8 * width - 1) := by
    rw [← Nat.pow_succ']
    congr 1
    omega
  rw [byte_power, double, Nat.mul_div_cancel_left _ (by decide)]

theorem inRange_natural : InRange false width n ↔ 0 ≤ n ∧ n < (256 ^ width : Nat) := by
  rw [byte_power]
  push_cast
  rfl

theorem inRange_signed (positive : 0 < width) :
    InRange true width n ↔ -(256 ^ width / 2 : Nat) ≤ n ∧ n < (256 ^ width / 2 : Nat) := by
  rw [half_power positive]
  push_cast
  rfl

theorem residue_eq (width : Nat) (n : Int) : residue width n = (n % 256 ^ width).toNat := by
  have power : (256 : Int) ^ width = 2 ^ (8 * width) := by
    exact_mod_cast byte_power width
  rw [residue, power]

theorem residue_lt (width : Nat) (n : Int) : residue width n < 256 ^ width := by
  have positive : (0 : Int) < 256 ^ width := by exact_mod_cast Nat.pow_pos (n := width) (by decide)
  have below := Int.emod_lt_of_pos n positive
  rw [residue_eq, Int.toNat_lt (Int.emod_nonneg n positive.ne')]
  exact_mod_cast below

theorem residue_turn (width : Nat) (n : Int) :
    residue width (n + 2 ^ (8 * width)) = residue width n := by
  rw [residue, residue, Int.add_emod_right]

theorem inRange_turn (positive : 0 < width) (range : InRange true width n) (negative : n < 0) :
    InRange false width (n + 2 ^ (8 * width)) := by
  have whole : ((256 ^ width : Nat) : Int) = 2 ^ (8 * width) := by exact_mod_cast byte_power width
  have low := ((inRange_signed positive).mp range).1
  rw [inRange_natural, ← whole]
  omega

theorem pattern_residue (positive : 0 < width) (order : ByteOrder) (integer : v.integer? = some n)
    (range : InRange signed width n) :
    (ofWidth signed width).pattern order v = .ok (residue width n) := by
  rw [residue_eq]
  cases signed with
  | false =>
    obtain ⟨low, high⟩ := inRange_natural.mp range
    push_cast at high
    rw [Int.emod_eq_of_lt low high]
    exact pattern_natural order integer low high
  | true =>
    obtain ⟨low, high⟩ := (inRange_signed positive).mp range
    exact pattern_int order integer low high

theorem converted_beyond (positive : 0 < width) (integer : v.integer? = some n)
    (beyond : ¬ InRange signed width n) :
    (ofWidth signed width).converted v = .error .value := by
  cases signed with
  | false =>
    rw [inRange_natural] at beyond
    push_cast at beyond
    change (whole v).bind _ = _
    rw [whole_of_integer integer]
    exact if_neg beyond
  | true =>
    rw [inRange_signed positive] at beyond
    change (whole v).bind _ = _
    rw [whole_of_integer integer]
    exact if_neg beyond

theorem value_residue (positive : 0 < width) (range : InRange signed width n) :
    (ofWidth signed width).value (residue width n) = .int n := by
  rw [residue_eq]
  cases signed with
  | false =>
    obtain ⟨low, high⟩ := inRange_natural.mp range
    push_cast at high
    rw [Int.emod_eq_of_lt low high]
    change Value.int n.toNat = _
    rw [Int.toNat_of_nonneg low]
  | true =>
    obtain ⟨low, high⟩ := (inRange_signed positive).mp range
    exact value_int low high

theorem length_residue (signed : Bool) (width : Nat) (order : ByteOrder) (n : Int) :
    ((ofWidth signed width).encode order (residue width n)).length = width := by
  rw [length_encode, width_ofWidth]

theorem write_inRange (positive : 0 < width) (integer : v.integer? = some n)
    (range : InRange signed width n) (inside : Inside bs offset width) :
    (ofWidth signed width).write order offset v bs = .ok () (bs.overlay offset.toNat
      ((ofWidth signed width).encode order (residue width n))) := by
  apply write_of_pattern (pattern_residue positive order integer range)
  rw [width_ofWidth]
  exact inside

theorem write_beyond (positive : 0 < width) (integer : v.integer? = some n)
    (beyond : ¬ (Inside bs offset width ∧ InRange signed width n)) :
    ∃ fault, (ofWidth signed width).write order offset v bs = .error (.plain fault) bs ∧
      fault.kind = .value := by
  by_cases inside : Inside bs offset (ofWidth signed width).width
  · have refused : ¬ InRange signed width n := by
      intro range
      rw [width_ofWidth] at inside
      exact beyond ⟨inside, range⟩
    have converted := converted_beyond positive integer refused
    exact ⟨_, write_of_refused (pattern_of_refused converted) inside, rfl⟩
  · exact ⟨_, write_of_outside inside, rfl⟩

theorem read_overlay (positive : 0 < width) (range : InRange signed width n)
    (inside : Inside bs offset width) :
    (ofWidth signed width).read order (bs.overlay offset.toNat
      ((ofWidth signed width).encode order (residue width n))) offset = .ok (.int n) := by
  obtain ⟨there, window⟩ := inside.overlay (length_residue signed width order n)
  have small : residue width n < 256 ^ (ofWidth signed width).width := by
    rw [width_ofWidth]
    exact residue_lt width n
  rw [read_ok, width_ofWidth, window, decode_encode _ _ small, value_residue positive range]
  exact ⟨there, rfl⟩

theorem ofWidth_restores (positive : 0 < width) (strictness : Strictness) {raw : Bytes}
    (size : raw.length = width) :
    (Codec.number (ofWidth signed width) order).Restores strictness raw raw
      ((ofWidth signed width).decode order raw) := by
  cases signed with
  | false => exact Codec.uint_restores size
  | true => exact Codec.int_restores positive size

theorem write_read (positive : 0 < width)
    (read : (ofWidth signed width).read order bs offset = .ok v) :
    (ofWidth signed width).write order offset v bs = .ok () bs := by
  obtain ⟨inside, rfl⟩ := read_ok.mp read
  rw [width_ofWidth] at inside ⊢
  have size := length_window bs offset.toNat width inside.fits
  have restores : (Codec.number (ofWidth signed width) order).Restores Strictness.lenient _ _ _ :=
    ofWidth_restores positive Strictness.lenient size
  rw [write_restored restores (by rwa [width_ofWidth]), overlay_window bs _ width inside.fits]

/-- An integer of any kind of value is written exactly where its window is inside and its kind and
width have it, and is a value fault without effect elsewhere. It takes no other bytes than those of
its window, is read back as it is, has reversed bytes in the opposite byte order, and has the bytes
of the natural number that is larger by a whole turn if it is negative. What is read inside is
written back by the bytes that stand there. -/
theorem integer_exact (signed : Bool) {width : Nat} (positive : 0 < width) (order : ByteOrder)
    (bs : Bytes) (offset : Int) :
    let number := ofWidth signed width
    (∀ v n, v.integer? = some n →
      (Inside bs offset width ∧ InRange signed width n → ∃ after,
        number.write order offset v bs = .ok () after ∧
        SameExcept (fun i => offset ≤ i ∧ i < offset + width) bs after ∧
        number.read order after offset = .ok (.int n) ∧
        (∃ turned, number.write order.opposite offset v bs = .ok () turned ∧
          turned.window offset.toNat width = (after.window offset.toNat width).reverse) ∧
        (signed = true → n < 0 → (ofWidth false width).write order offset
          (.int (n + 2 ^ (8 * width))) bs = .ok () after)) ∧
      (¬ (Inside bs offset width ∧ InRange signed width n) → ∃ fault,
        number.write order offset v bs = .error (.plain fault) bs ∧ fault.kind = .value)) ∧
    ((∃ v, number.read order bs offset = .ok v) ↔ Inside bs offset width) ∧
    ∀ v, number.read order bs offset = .ok v → number.write order offset v bs = .ok () bs := by
  intro number
  refine ⟨?_, ?_, fun v => write_read positive⟩
  · intro v n integer
    refine ⟨?_, write_beyond positive integer⟩
    rintro ⟨inside, range⟩
    have window : ∀ order : ByteOrder, (bs.overlay offset.toNat
        (number.encode order (residue width n))).window offset.toNat width =
          number.encode order (residue width n) :=
      fun order => (inside.overlay (length_residue signed width order n)).2
    refine ⟨_, write_inRange positive integer range inside, ?_, read_overlay positive range inside,
      ⟨_, write_inRange positive integer range inside, ?_⟩, ?_⟩
    · have size := length_residue signed width order n
      refine (SameExcept.overlay bs offset.toNat _ (by rw [size]; exact inside.fits)).mono ?_
      intro i touched
      have := inside.1
      omega
    · rw [window, window]
      exact order.arrange_opposite _
    · rintro rfl negative
      rw [← residue_turn]
      have natural := inRange_turn positive range negative
      exact write_inRange positive rfl natural inside
  · constructor
    · rintro ⟨v, read⟩
      have inside := (read_ok.mp read).1
      rwa [width_ofWidth] at inside
    · intro inside
      exact ⟨_, read_ok.mpr ⟨by rwa [width_ofWidth], rfl⟩⟩

/-- Minus two in the second and third of four bytes, in big endian. A byte further no window is
left for it, and 40000 is too large for two bytes with a sign. -/
theorem integer_exact_below :
    let bs : Bytes := [7, 7, 7, 7]
    (Number.int 2).write .big 1 (.int (-2)) bs = .ok () [7, 0xFF, 0xFE, 7] ∧
      (Number.int 2).read .big [7, 0xFF, 0xFE, 7] 1 = .ok (.int (-2)) ∧
      (Number.uint 2).write .big 1 (.int 65534) bs = .ok () [7, 0xFF, 0xFE, 7] ∧
      (∃ fault, (Number.int 2).write .big 3 (.int (-2)) bs = .error (.plain fault) bs ∧
        fault.kind = .value) ∧
      ∃ fault, (Number.int 2).write .big 1 (.int 40000) bs = .error (.plain fault) bs ∧
        fault.kind = .value := by
  intro bs
  have written : (Number.int 2).write .big 1 (.int (-2)) bs = .ok () [7, 0xFF, 0xFE, 7] := rfl
  have positive : 0 < 2 := by decide
  obtain ⟨here, _⟩ := integer_exact true positive .big bs 1
  obtain ⟨there, _⟩ := integer_exact true positive .big bs 3
  obtain ⟨after, stored, _, back, _, natural⟩ := (here (.int (-2)) (-2) rfl).1 (by decide)
  cases written.symm.trans stored
  exact ⟨written, back, natural rfl (by decide), (there (.int (-2)) (-2) rfl).2 (by decide),
    (here (.int 40000) 40000 rfl).2 (by decide)⟩

end Number
end BinaryRecord
