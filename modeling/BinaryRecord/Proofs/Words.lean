import BinaryRecord.Proofs.Inverses

/-!
64-bit integers as two words and as one number. A field of two words holds the bytes of the plain
number of eight bytes with the same pattern, and is read as that number is: which word comes first
and how the bytes of each are ordered is together the byte order of the whole.
-/
namespace BinaryRecord

open Storage Bytes

namespace Number

def ofSign (unsigned : Bool) : Number := if unsigned then .uint 8 else .int 8

theorem width_ofSign (unsigned : Bool) : (ofSign unsigned).width = 8 := by
  cases unsigned <;> rfl

theorem value_ofSign (unsigned : Bool) {pattern : Nat} (small : pattern < 2 ^ 64) :
    (ofSign unsigned).value pattern = .int (Quadword.ofInt pattern unsigned).value := by
  cases unsigned with
  | false =>
    change Value.int (Int.bmod pattern (256 ^ 8)) = .int (BitVec.ofInt 64 pattern).toInt
    rw [BitVec.toInt_ofInt]
  | true =>
    have range : Quadword.InRange true pattern := by
      change (0 : Int) ≤ pattern ∧ (pattern : Int) < 2 ^ 64
      omega
    rw [Quadword.value_ofInt range]
    rfl

theorem read_of_inside (number : Number) (order : ByteOrder) {bs : Bytes} {offset : Int}
    (inside : Inside bs offset number.width) :
    number.read order bs offset =
      .ok (number.decode order (bs.window offset.toNat number.width)) := by
  unfold read
  rw [Storage.read, if_pos inside]
  rfl

theorem read_ok {number : Number} {order : ByteOrder} {bs : Bytes} {offset : Int} {v : Value} :
    number.read order bs offset = .ok v ↔ Inside bs offset number.width ∧
      number.decode order (bs.window offset.toNat number.width) = v := by
  by_cases inside : Inside bs offset number.width
  · rw [read_of_inside number order inside, and_iff_right inside, Except.ok.injEq]
  · rw [read, Storage.read, if_neg inside]
    simp only [inside, false_and, iff_false]
    rintro ⟨⟩

end Number

namespace Codec

variable {bs : Bytes} {offset : Int} {order : ByteOrder}

theorem encodeQuad_ofInt (order : ByteOrder) (n : Int) (unsigned : Bool) :
    encodeQuad order (Quadword.ofInt n unsigned) =
      (Number.uint 8).encode order (n % 2 ^ 64).toNat := by
  have pattern : (Quadword.ofInt n unsigned).pattern = (n % 2 ^ 64).toNat := by
    have residue := Quadword.pattern_ofInt n unsigned
    omega
  rw [encodeQuad, pattern]
  rfl

theorem writeQuad_inside (inside : Inside bs offset 8) {v : Value} {n : Int}
    (integer : v.integer? = some n) (unsigned : Bool) :
    writeQuad unsigned order v offset bs =
      .ok () (bs.overlay offset.toNat ((Number.uint 8).encode order (n % 2 ^ 64).toNat)) := by
  have edits := writeQuad_edits unsigned order v offset bs
  rw [Value.toQuad?, integer] at edits
  rw [← encodeQuad_ofInt order n unsigned]
  exact edits.written _ rfl inside

theorem write_number_inside (inside : Inside bs offset 8) (order : ByteOrder) (n : Int) :
    (Number.uint 8).write order offset (.int (n % 2 ^ 64)) bs =
      .ok () (bs.overlay offset.toNat ((Number.uint 8).encode order (n % 2 ^ 64).toNat)) :=
  Number.write_of_pattern (Number.pattern_natural order rfl (by omega) (by omega)) inside

theorem readQuad_written (inside : Inside bs offset 8) (order : ByteOrder) (n : Int)
    (unsigned : Bool) :
    readQuad unsigned order
      (bs.overlay offset.toNat ((Number.uint 8).encode order (n % 2 ^ 64).toNat)) offset =
      .ok (.quad (Quadword.ofInt n unsigned)) := by
  have size := length_encodeQuad order (Quadword.ofInt n unsigned)
  have fits : offset.toNat + (encodeQuad order (Quadword.ofInt n unsigned)).length ≤ bs.length := by
    rw [size]
    exact inside.fits
  have there := inside.congr (length_overlay _ _ _ fits)
  have window := window_overlay bs offset.toNat _ fits
  rw [size] at window
  rw [← encodeQuad_ofInt order n unsigned, readQuad_of_inside unsigned order there, window,
    toNat_encodeQuad]
  exact congrArg (fun x => Except.ok (Value.quad x)) (Quadword.ofInt_pattern _)

theorem writeQuad_read (inside : Inside bs offset 8) {unsigned : Bool} {x : Quadword}
    (read : readQuad unsigned order bs offset = .ok (.quad x)) (other : Bool) :
    writeQuad other order (.quad x) offset bs = .ok () bs := by
  have size := length_window bs offset.toNat 8 inside.fits
  have small := Number.pattern_lt (.uint 8) order size
  rw [readQuad_of_inside unsigned order inside] at read
  cases read
  have residue : (Quadword.ofInt (order.arrange (bs.window offset.toNat 8)).toNat unsigned).value %
      2 ^ 64 = (order.arrange (bs.window offset.toNat 8)).toNat := by
    rw [Quadword.value_emod, Quadword.pattern_ofInt]
    change _ < 256 ^ 8 at small
    omega
  rw [writeQuad_inside inside rfl other, residue, Int.toNat_natCast,
    Number.encode_arranged (.uint 8) order size, overlay_window bs _ 8 inside.fits]

/-- A field of two words is a field of one number of eight bytes. Any integer, reduced modulo 2 ^ 64, is
written to either with the same bytes, whatever the signedness of the field, and comes back reduced
into its range; what is read is the number that stands there, and written back it changes nothing. -/
theorem quad_plain (strictness : Strictness) (order : ByteOrder) (bs : Bytes) (offset length : Int)
    (inside : Inside bs offset 8) :
    (∀ machine, FieldType.int64.codec? machine order = some (quad false order) ∧
      FieldType.uint64.codec? machine order = some (quad true order)) ∧
    (∀ v n, v.integer? = some n → ∃ after,
      (Number.uint 8).write order offset (.int (n % 2 ^ 64)) bs = .ok () after ∧
      ∀ unsigned, (quad unsigned order).write strictness v offset length bs = .ok () after ∧
        ∃ x, (quad unsigned order).read strictness after offset length = .ok (.quad x) ∧
          x.unsigned = unsigned ∧ Quadword.InRange unsigned x.value ∧
          x.value % 2 ^ 64 = n % 2 ^ 64) ∧
    ∀ unsigned, ∃ x, (quad unsigned order).read strictness bs offset length = .ok (.quad x) ∧
      x.unsigned = unsigned ∧
      (Number.ofSign unsigned).read order bs offset = .ok (.int x.value) ∧
      ∀ other, (quad other order).write strictness (.quad x) offset length bs = .ok () bs := by
  refine ⟨fun _ => ⟨rfl, rfl⟩, ?_, ?_⟩
  · intro v n integer
    have fixed : v.resolve bs = v := by cases v <;> first | rfl | cases integer
    refine ⟨_, write_number_inside inside order n, ?_⟩
    intro unsigned
    constructor
    · change writeQuad unsigned order (v.resolve bs) offset bs = _
      rw [fixed]
      exact writeQuad_inside inside integer unsigned
    · refine ⟨Quadword.ofInt n unsigned, readQuad_written inside order n unsigned, rfl, ?_, ?_⟩
      · exact (Quadword.ofInt n unsigned).value_inRange
      · rw [Quadword.value_emod]
        exact Quadword.pattern_ofInt n unsigned
  · intro unsigned
    have read := readQuad_of_inside unsigned order inside
    have window : Inside bs offset (Number.ofSign unsigned).width := by
      rw [Number.width_ofSign]
      exact inside
    have small := Number.pattern_lt (.uint 8) order (length_window bs offset.toNat 8 inside.fits)
    refine ⟨_, read, rfl, ?_, writeQuad_read inside read⟩
    rw [Number.read_of_inside _ order window, Number.width_ofSign, Number.decode,
      Number.value_ofSign unsigned small]

/-- An integer outside of both ranges, in big endian and over other bytes. The two signednesses store it
alike and tell it apart when they read it. -/
theorem quad_plain_below :
    let bs : Bytes := [1, 2, 3, 4, 5, 6, 7, 8, 9, 10]
    let after : Bytes := [1, 255, 255, 255, 255, 255, 255, 255, 254, 10]
    (Number.uint 8).write .big 1 (.int (2 ^ 64 - 2)) bs = .ok () after ∧
      (∀ unsigned, (quad unsigned .big).write Strictness.lenient (.int (-2 ^ 64 - 2)) 1 8 bs =
        .ok () after) ∧
      (∃ x, (quad false .big).read Strictness.lenient after 1 8 = .ok (.quad x) ∧ x.value = -2) ∧
      (∃ x, (quad true .big).read Strictness.lenient after 1 8 = .ok (.quad x) ∧
        x.value = 2 ^ 64 - 2) ∧
      ∃ x, (quad true .big).read Strictness.lenient bs 1 8 = .ok (.quad x) ∧
        (Number.uint 8).read .big bs 1 = .ok (.int x.value) := by
  intro bs after
  have direct : (Number.uint 8).write .big 1 (.int ((-2 ^ 64 - 2) % 2 ^ 64)) bs = .ok () after := rfl
  obtain ⟨_, written, read⟩ := quad_plain Strictness.lenient .big bs 1 8 (by decide)
  obtain ⟨stored, plain, each⟩ := written (.int (-2 ^ 64 - 2)) (-2 ^ 64 - 2) rfl
  cases direct.symm.trans plain
  obtain ⟨_, x, signed, _, within, one⟩ := each false
  obtain ⟨_, y, natural, _, above, other⟩ := each true
  obtain ⟨z, stands, _, number, _⟩ := read true
  refine ⟨direct, fun unsigned => (each unsigned).1, ⟨x, signed, ?_⟩, ⟨y, natural, ?_⟩, z, stands,
    number⟩
  · exact within.unique (by decide) one
  · exact above.unique (by decide) other

end Codec
end BinaryRecord
