import BinaryRecord.Proofs.Inverses

/-!
Values that are packed come back when they are unpacked, in a record of their own and in one inside
of an array. A value has to lie in the range of its field; a text field need not be full.
-/
namespace BinaryRecord

open Storage Bytes

namespace FieldType

def range? (machine : Machine) : FieldType → Option (Int × Int)
  | int8 => some (-2 ^ 7, 2 ^ 7)
  | uint8 => some (0, 2 ^ 8)
  | int16 => some (-2 ^ 15, 2 ^ 15)
  | uint16 => some (0, 2 ^ 16)
  | int32 | long => some (-2 ^ 31, 2 ^ 31)
  | uint32 | ulong => some (0, 2 ^ 32)
  | int64 => some (-2 ^ 63, 2 ^ 63)
  | uint64 => some (0, 2 ^ 64)
  | pointer => some (0, 2 ^ (8 * machine.pointerWidth))
  | _ => none

/-- The values that a field of a type and a size can hold as they are. -/
def Takes (machine : Machine) (size : Nat) (code : FieldType) (v : Value) : Prop :=
  match code with
  | truth => ∃ b, v = .bool b
  | char => ∃ s c, v = .text s ∧ s.toList = [c] ∧ c.toNat ≤ 255
  | double => ∃ bits, v = .float bits ∧ FloatShape.double.isNaN bits.toNat = false
  | single => ∃ bits narrow, v = .float bits ∧ narrow < 2 ^ 32 ∧
      FloatShape.SameValue .double .single bits.toNat narrow
  | text => ∃ s, v = .text s ∧ '\x00' ∉ s.toList ∧ (Utf8.encode s).length ≤ size
  | counted => ∃ s, v = .text s ∧ (Utf8.encode s).length ≤ min (size - 1) 255
  | code => ∃ low high n, code.range? machine = some (low, high) ∧ v.integer? = some n ∧
      low ≤ n ∧ n < high

theorem Takes.resolve {machine : Machine} {size : Nat} {code : FieldType} {v : Value}
    (takes : code.Takes machine size v) (now : Bytes) : v.resolve now = v := by
  have whole : ∀ n, v.integer? = some n → v.resolve now = v := by
    intro n integer
    cases v <;> first | rfl | cases integer
  cases code with
  | truth =>
    obtain ⟨b, rfl⟩ := takes
    rfl
  | char =>
    obtain ⟨s, c, rfl, _⟩ := takes
    rfl
  | double =>
    obtain ⟨bits, rfl, _⟩ := takes
    rfl
  | single =>
    obtain ⟨bits, narrow, rfl, _⟩ := takes
    rfl
  | text =>
    obtain ⟨s, rfl, _⟩ := takes
    rfl
  | counted =>
    obtain ⟨s, rfl, _⟩ := takes
    rfl
  | _ =>
    obtain ⟨low, high, n, _, integer, _⟩ := takes
    exact whole n integer

theorem pointer_returns {machine : Machine} {order : ByteOrder} {codec : Codec} {length : Nat}
    {strictness : Strictness} {v : Value} (takes : pointer.Takes machine length v)
    (found : pointer.codec? machine order = some codec) : codec.Returns strictness length v := by
  obtain ⟨low, high, n, range, integer, above, below⟩ := takes
  cases range
  unfold codec? at found
  by_cases wide : machine.is64Bit
  · have eight : machine.pointerWidth = 8 := by simpa [Machine.is64Bit] using wide
    rw [if_pos wide] at found
    cases found
    rw [eight] at below
    exact Codec.quad_returns integer (Quadword.value_ofInt ⟨above, below⟩)
  · rw [if_neg wide] at found
    cases found
    have power : (2 : Int) ^ (8 * machine.pointerWidth) = 256 ^ machine.pointerWidth := by
      rw [pow_mul]
      norm_num
    rw [power] at below
    exact Codec.uint_returns integer above below

theorem Takes.returns {machine : Machine} {order : ByteOrder} {code : FieldType} {codec : Codec}
    {length : Nat} {strictness : Strictness} {v : Value} (takes : code.Takes machine length v)
    (found : code.codec? machine order = some codec) (spans : codec.Spans length) :
    codec.Returns strictness length v := by
  cases code with
  | padding => cases found
  | pointer => exact pointer_returns takes found
  | truth =>
    obtain ⟨b, rfl⟩ := takes
    cases found
    exact Codec.truth_returns b
  | char =>
    obtain ⟨s, c, rfl, lone, low⟩ := takes
    cases found
    exact Codec.char_returns lone low
  | double =>
    obtain ⟨bits, rfl, real⟩ := takes
    cases found
    exact Codec.double_returns real
  | single =>
    obtain ⟨bits, narrow, rfl, small, same⟩ := takes
    cases found
    exact Codec.single_returns small same
  | text =>
    obtain ⟨s, rfl, free, fits⟩ := takes
    cases found
    exact Codec.text_returns free fits
  | counted =>
    obtain ⟨s, rfl, fits⟩ := takes
    cases found
    exact Codec.counted_returns fits spans
  | int64 =>
    obtain ⟨low, high, n, range, integer, above, below⟩ := takes
    cases range
    cases found
    exact Codec.quad_returns integer (Quadword.value_ofInt ⟨above, below⟩)
  | uint64 =>
    obtain ⟨low, high, n, range, integer, above, below⟩ := takes
    cases range
    cases found
    exact Codec.quad_returns integer (Quadword.value_ofInt ⟨above, below⟩)
  | int8 | int16 | int32 | long =>
    obtain ⟨low, high, n, range, integer, above, below⟩ := takes
    cases range
    cases found
    exact Codec.int_returns integer above below
  | uint8 | uint16 | uint32 | ulong =>
    obtain ⟨low, high, n, range, integer, above, below⟩ := takes
    cases range
    cases found
    exact Codec.uint_returns integer above below

end FieldType

def Layout.Takes (layout : Layout) (machine : Machine) (values : List Value) : Prop :=
  List.Forall₂ (fun slot v => slot.code.Takes machine slot.size v) layout.fields values

namespace Format

theorem takes_start {format : Format} {machine : Machine} {values : List Value} {first : Int}
    (takes : (format.layout first).Takes machine values) (second : Int) :
    (format.layout second).Takes machine values := by
  have shapes : ∀ start, (format.layout start).Takes machine values ↔
      List.Forall₂ (fun (shape : FieldType × Option Codec × Nat) v =>
        shape.1.Takes machine shape.2.2 v) ((format.layout start).fields.map Slot.shape) values := by
    intro start
    rw [List.forall₂_map_left_iff]
    rfl
  rw [shapes, format.fields_shapes second first, ← shapes]
  exact takes

theorem layout_returns {format : Format} (accepted : format.Accepted) {start : Int}
    {values : List Value} (takes : (format.layout start).Takes format.machine values) {bs : Bytes}
    (inside : ∀ slot ∈ (format.layout start).fields, Inside bs slot.offset slot.size) :
    ∃ after restored,
      (∀ checked, (format.layout start).pack checked format.strictness values bs = .ok () after) ∧
      (∀ checked, (format.layout start).unpack checked format.strictness after = .ok restored) ∧
      List.Forall₂ Value.Same values restored := by
  have whole := fault_of_accepted accepted start
  have stores : List.Forall₂ (fun slot v => ∃ raw w, slot.Stores format.strictness v raw w ∧
      v.Same w) (format.layout start).fields values := by
    rw [Layout.Takes, List.forall₂_iff_zip] at takes
    rw [List.forall₂_iff_zip]
    constructor
    · exact takes.1
    · intro slot v member
      have taken := takes.2 member
      have field := (List.of_mem_zip member).1
      obtain ⟨codec, uses⟩ := field_uses field
      obtain ⟨raw, w, encoded, decoded, same⟩ :=
        taken.returns (field_found field uses) uses.spans slot.offset
      exact ⟨raw, w, ⟨codec, uses, taken.resolve, encoded, decoded⟩, same⟩
  obtain ⟨after, filled, read⟩ := Fills.of_stores (format.fields_ordered start) stores inside
  obtain ⟨restored, reads, same⟩ := exists_between read
  refine ⟨after, restored, Layout.pack_filled whole filled, ?_, same⟩
  intro checked
  rw [Layout.unpack_ok checked format.strictness (fun slot member => field_uses member)]
  · exact ⟨whole, reads⟩
  · intro slot member
    exact (inside slot member).congr filled.length

/-- A new record gives back the values it was packed from, if its size is one that a new record can
have; from 2 ^ 63 bytes on there is no new record of any values. A record in an array that its fields
lie inside of gives the values back too, whatever its size. -/
theorem unpack_pack (format : Format) (accepted : format.Accepted) :
    (2 ^ 63 ≤ (format.layout 0).size → ∀ arguments checked,
      format.pack arguments checked =
        .error (.refused .overflow (.zeros (format.layout 0).size))) ∧
    ∀ values, (format.layout 0).Takes format.machine values → ∀ arguments checked,
      (spread arguments checked).1 = values →
      ((format.layout 0).size < 2 ^ 63 →
        ∃ record restored, format.pack arguments checked = .ok record ∧
          (∀ checked, format.unpack (.bytes record) checked = .ok restored) ∧
          List.Forall₂ Value.Same values restored) ∧
      ∀ offset : Int, 0 ≤ offset → ∀ bs : Bytes,
        (∀ slot ∈ (format.layout offset).fields, slot.stop ≤ bs.length) →
        ∃ after restored,
          format.packAt offset arguments checked (.array bs) = .ok () (.array after) ∧
          (∀ checked, format.unpackAt (.array after) checked offset = .ok restored) ∧
          List.Forall₂ Value.Same values restored := by
  have whole := fault_of_accepted accepted 0
  refine ⟨fun large arguments checked => pack_of_large whole large arguments checked, ?_⟩
  intro values takes arguments checked given
  constructor
  · intro small
    obtain ⟨record, restored, packed, unpacked, same⟩ :=
      layout_returns accepted takes format.fields_inside_blank
    refine ⟨record, restored, ?_, unpacked, same⟩
    rw [pack_of_small whole small, given, packed]
  · intro offset start bs ends
    have inside : ∀ slot ∈ (format.layout offset).fields, Inside bs slot.offset slot.size := by
      intro slot member
      have low := ((format.fields_ordered offset).bounds member).1
      exact ⟨by omega, ends slot member⟩
    obtain ⟨after, restored, packed, unpacked, same⟩ :=
      layout_returns accepted (takes_start takes offset) inside
    refine ⟨after, restored, ?_, unpacked, same⟩
    change (format.layout offset).packOnto (spread arguments checked).2 format.strictness
      (spread arguments checked).1 (.array bs) = _
    unfold Layout.packOnto
    dsimp only
    rw [given, packed]

/-- An integer, a text that is not ASCII and a single, none of them aligned by itself. -/
theorem unpack_pack_mixed :
    let format : Format := ⟨"@bh3sf", Machine.default, Strictness.lenient⟩
    let values : List Value := [.int (-3), .int 258, .text "é", .float 0x3FF8000000000000]
    (format.layout 0).size < 2 ^ 63 ∧
    ∃ record restored, format.pack values true = .ok record ∧
      (∀ checked, format.unpack (.bytes record) checked = .ok restored) ∧
      List.Forall₂ Value.Same values restored := by
  have accepted : (Format.mk "@bh3sf" Machine.default Strictness.lenient).Accepted := by decide
  have small : ((Format.mk "@bh3sf" Machine.default Strictness.lenient).layout 0).size < 2 ^ 63 := by
    decide
  have fields : ((Format.mk "@bh3sf" Machine.default Strictness.lenient).layout 0).fields =
      [⟨.int8, some (.number (.int 1) .little), 0, 1⟩,
        ⟨.int16, some (.number (.int 2) .little), 2, 2⟩, ⟨.text, some .text, 4, 3⟩,
        ⟨.single, some (.number .single .little), 8, 4⟩] := by
    decide
  intro format values
  have takes : (format.layout 0).Takes format.machine values := by
    unfold Layout.Takes
    rw [fields]
    refine .cons ⟨_, _, -3, rfl, rfl, by decide, by decide⟩
      (.cons ⟨_, _, 258, rfl, rfl, by decide, by decide⟩
        (.cons ⟨"é", rfl, by decide, by decide⟩ (.cons ⟨_, 0x3FC00000, rfl, by decide, ?_⟩ .nil)))
    exact ⟨by decide, Or.inr ⟨by decide, by decide, by decide +kernel⟩⟩
  exact ⟨small, ((unpack_pack format accepted).2 values takes values true rfl).1 small⟩

/-- A text field can be too large for a new record, although it takes the empty text. -/
theorem pack_of_huge :
    let format : Format := ⟨"<9223372036854775808s", Machine.default, Strictness.lenient⟩
    format.Accepted ∧ (format.layout 0).Takes format.machine [.text ""] ∧
      format.pack [.list [.text ""]] true =
        .error (.refused .overflow (.zeros 9223372036854775808)) := by
  have accepted :
      (Format.mk "<9223372036854775808s" Machine.default Strictness.lenient).Accepted := by decide
  have fields :
      ((Format.mk "<9223372036854775808s" Machine.default Strictness.lenient).layout 0).fields =
        [⟨.text, some .text, 0, 9223372036854775808⟩] := by decide
  have packed : (Format.mk "<9223372036854775808s" Machine.default Strictness.lenient).pack
      [.list [.text ""]] true = .error (.refused .overflow (.zeros 9223372036854775808)) := rfl
  intro format
  refine ⟨accepted, ?_, packed⟩
  rw [Layout.Takes, fields]
  exact .cons ⟨"", rfl, by decide, by decide⟩ .nil

end Format
end BinaryRecord
