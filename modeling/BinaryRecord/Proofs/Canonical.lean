import BinaryRecord.Proofs.Inverses

/-!
Bytes that are unpacked and packed again. Only what no value tells is changed: padding, the bytes of
a text field after its text, a count beyond its field, and which non-zero byte stood for true.
-/
namespace BinaryRecord

open Storage Bytes

namespace FieldType

def countedContent : Bytes → Bytes
  | [] => []
  | b :: rest => rest.take b.toNat

def canonical (code : FieldType) (raw : Bytes) : Bytes :=
  match code with
  | truth => raw.map fun b => if b = 0 then 0 else 1
  | text => PlainText.encode (raw.takeWhile (· != 0)) raw.length
  | counted => UInt8.ofNat (countedContent raw).length ::
      PlainText.encode (countedContent raw) (raw.length - 1)
  | _ => raw

/-- The bytes of a field that the values of its type stand for one by one. -/
def Clean (order : ByteOrder) (raw : Bytes) : FieldType → Prop
  | single => FloatShape.single.isNaN (order.arrange raw).toNat = false
  | double => FloatShape.double.isNaN (order.arrange raw).toNat = false
  | text => Utf8.WellFormed (raw.takeWhile (· != 0))
  | counted => Utf8.WellFormed (countedContent raw)
  | _ => True

end FieldType

namespace Codec

/-- The bytes are decoded to the value, and those that it is encoded to are decoded to it as well. -/
structure Restores (codec : Codec) (strictness : Strictness) (raw canonical : Bytes) (v : Value) :
    Prop where
  decoded : ∀ offset, codec.decode strictness raw offset = .ok v
  plain : ∀ now : Bytes, v.resolve now = v
  encoded : ∀ offset, codec.encode strictness v offset raw.length = .ok canonical
  again : ∀ offset, codec.decode strictness canonical offset = .ok v

variable {strictness : Strictness} {order : ByteOrder} {raw : Bytes}

theorem number_restores {n : Number} (size : raw.length = n.width)
    (plain : ∀ now : Bytes, (n.decode order raw).resolve now = n.decode order raw)
    (back : n.pattern order (n.decode order raw) = .ok (order.arrange raw).toNat) :
    (number n order).Restores strictness raw raw (n.decode order raw) := by
  refine ⟨fun _ => rfl, plain, ?_, fun _ => rfl⟩
  intro offset
  unfold encode
  dsimp only
  rw [back]
  exact congrArg Except.ok (n.encode_arranged order size)

theorem int_restores {width : Nat} (positive : 0 < width) (size : raw.length = width) :
    (number (.int width) order).Restores strictness raw raw ((Number.int width).decode order raw) := by
  apply number_restores size (fun _ => rfl)
  have small := Number.pattern_lt (.int width) order size
  change _ < 256 ^ width at small
  unfold Number.decode
  generalize (order.arrange raw).toNat = p at small ⊢
  have even : 256 ^ width % 2 = 0 := by
    rw [Nat.pow_mod]
    simp [Nat.ne_of_gt positive]
  have weight : 0 < 256 ^ width := Nat.pow_pos (by decide)
  have power : (256 : Int) ^ width = (256 ^ width : Nat) := by norm_cast
  have low := Int.le_bmod (x := p) weight
  have high := Int.bmod_lt (x := p) weight
  have pattern : (Number.int width).pattern order (.int (Int.bmod p (256 ^ width))) =
      .ok (Int.bmod p (256 ^ width) % 256 ^ width).toNat :=
    Number.pattern_int order rfl (by omega) (by omega)
  change (Number.int width).pattern order (.int (Int.bmod p (256 ^ width))) = _
  rw [pattern, power, Int.bmod_emod, Int.emod_eq_of_lt (by omega) (by omega), Int.toNat_natCast]

theorem uint_restores {width : Nat} (size : raw.length = width) :
    (number (.uint width) order).Restores strictness raw raw
      ((Number.uint width).decode order raw) := by
  apply number_restores size (fun _ => rfl)
  exact Number.pattern_uint order (Number.pattern_lt (.uint width) order size)

theorem double_restores (size : raw.length = 8)
    (real : FloatShape.double.isNaN (order.arrange raw).toNat = false) :
    (number .double order).Restores strictness raw raw (Number.double.decode order raw) := by
  have value : Number.double.decode order raw = .float (UInt64.ofNat (order.arrange raw).toNat) :=
    Number.ofDouble_number real
  have small : (order.arrange raw).toNat < 2 ^ 64 := Number.pattern_lt .double order size
  have bits : (UInt64.ofNat (order.arrange raw).toNat).toNat = (order.arrange raw).toNat := by
    rw [UInt64.toNat_ofNat', Nat.mod_eq_of_lt small]
  apply number_restores size
  · intro now
    rw [value]
    rfl
  · rw [value, Number.pattern_double order (by rw [bits]; exact real), bits]

theorem single_restores (size : raw.length = 4)
    (real : FloatShape.single.isNaN (order.arrange raw).toNat = false) :
    (number .single order).Restores strictness raw raw (Number.single.decode order raw) := by
  obtain ⟨wide, same⟩ := Number.exists_double real
  have value : Number.single.decode order raw = .float wide := Number.value_single same
  apply number_restores size
  · intro now
    rw [value]
    rfl
  · rw [value, Number.pattern_single order (Number.pattern_lt .single order size) same]

theorem quad_restores (unsigned : Bool) (size : raw.length = 8) :
    (quad unsigned order).Restores strictness raw raw
      (.quad (Quadword.ofInt (order.arrange raw).toNat unsigned)) := by
  refine ⟨fun _ => rfl, fun _ => rfl, ?_, fun _ => rfl⟩
  intro offset
  have small : (order.arrange raw).toNat < 2 ^ 64 := by
    have bound := toNat_lt (order.arrange raw)
    rw [order.length_arrange, size] at bound
    exact bound
  have pattern : (Quadword.ofInt (order.arrange raw).toNat unsigned).pattern =
      (order.arrange raw).toNat := by
    have residue := Quadword.pattern_ofInt (order.arrange raw).toNat unsigned
    omega
  have same := Quadword.ofInt_value (Quadword.ofInt (order.arrange raw).toNat unsigned)
  change Except.ok (encodeQuad order (Quadword.ofInt
    (Quadword.ofInt (order.arrange raw).toNat unsigned).value unsigned)) = _
  change Quadword.ofInt (Quadword.ofInt (order.arrange raw).toNat unsigned).value unsigned = _ at same
  rw [same, encodeQuad, pattern, ← size, ← order.length_arrange raw, ofNat_toNat,
    order.arrange_arrange]

theorem char_restores (b : UInt8) :
    char.Restores strictness [b] [b] (.text (String.ofList [Char.ofNat b.toNat])) := by
  refine ⟨fun _ => rfl, fun _ => rfl, ?_, fun _ => rfl⟩
  intro offset
  have small := b.toNat_lt
  have valid : b.toNat.isValidChar := Or.inl (by omega)
  have number : (Char.ofNat b.toNat).toNat = b.toNat := by
    rw [Char.ofNat, dif_pos valid]
    rfl
  have code : firstCode (.text (String.ofList [Char.ofNat b.toNat])) = .ok b.toNat := by
    rw [firstCode_lone (String.toList_ofList), number]
  unfold encode
  dsimp only
  rw [code]
  change Except.ok [UInt8.ofNat (b.toNat % 256)] = _
  rw [Nat.mod_eq_of_lt small, UInt8.ofNat_toNat]

theorem truth_restores (b : UInt8) :
    truth.Restores strictness [b] (FieldType.truth.canonical [b]) (.bool (b != 0)) := by
  by_cases zero : b = 0
  · subst zero
    exact ⟨fun _ => rfl, fun _ => rfl, fun _ => rfl, fun _ => rfl⟩
  · have set : (b != 0) = true := by simpa [bne] using zero
    have one : FieldType.truth.canonical [b] = [1] := by
      simp [FieldType.canonical, zero]
    rw [one, set]
    refine ⟨?_, fun _ => rfl, fun _ => rfl, fun _ => rfl⟩
    intro offset
    unfold decode
    rw [List.headD_cons, set]

theorem text_restores (wellFormed : Utf8.WellFormed (raw.takeWhile (· != 0))) :
    text.Restores strictness raw (FieldType.text.canonical raw) (.text (PlainText.decode raw)) := by
  have back : Utf8.encode (PlainText.decode raw) = raw.takeWhile (· != 0) :=
    Utf8.encode_decode wellFormed
  have short : (raw.takeWhile (· != 0)).length ≤ raw.length := (List.takeWhile_sublist _).length_le
  refine ⟨fun _ => rfl, fun _ => rfl, ?_, ?_⟩
  · intro offset
    change Except.ok (PlainText.encode (Utf8.encode (PlainText.decode raw)) raw.length) = _
    rw [back]
    rfl
  · intro offset
    unfold decode FieldType.canonical
    dsimp only
    rw [PlainText.decode_encode, List.takeWhile_idem, List.take_of_length_le short]
    rfl

theorem counted_restores (size : 1 ≤ raw.length)
    (fits : strictness.counts = true → (raw.headD 0).toNat < raw.length)
    (wellFormed : Utf8.WellFormed (FieldType.countedContent raw)) :
    counted.Restores strictness raw (FieldType.counted.canonical raw)
      (.text (Utf8.decode (FieldType.countedContent raw))) := by
  have decoded : ∀ offset, CountedText.decode strictness.counts raw offset =
      .ok (Utf8.decode (FieldType.countedContent raw)) := by
    intro offset
    obtain ⟨b, rest, rfl⟩ := List.exists_cons_of_length_pos size
    rw [List.headD_cons, List.length_cons] at fits
    unfold CountedText.decode FieldType.countedContent
    dsimp only
    rw [List.length_cons]
    by_cases inside : b.toNat < rest.length + 1
    · rw [if_pos inside]
    · have lenient : ¬ strictness.counts = true := by
        intro strict
        exact inside (fits strict)
      rw [if_neg inside, if_neg lenient, List.take_of_length_le (by omega)]
  have short : (FieldType.countedContent raw).length ≤ CountedText.room raw.length := by
    obtain ⟨b, rest, rfl⟩ := List.exists_cons_of_length_pos size
    have := b.toNat_lt
    change (rest.take b.toNat).length ≤ min ((b :: rest).length - 1) 255
    rw [List.length_take, List.length_cons]
    omega
  unfold FieldType.canonical
  dsimp only
  generalize FieldType.countedContent raw = content at *
  have padded : UInt8.ofNat content.length :: PlainText.encode content (raw.length - 1) =
      CountedText.stored content raw.length := by
    rw [CountedText.stored_fitting short, PlainText.encode,
      List.take_of_length_le (Nat.le_min.mp short).1]
  rw [padded]
  refine ⟨?_, fun _ => rfl, ?_, ?_⟩
  · intro offset
    unfold decode
    dsimp only
    rw [decoded]
    rfl
  · intro offset
    change CountedText.encode strictness.counts (Utf8.encode (Utf8.decode content)) offset _ = _
    rw [Utf8.encode_decode wellFormed, CountedText.encode_eq, if_neg]
    rintro ⟨long, _⟩
    exact Nat.not_lt.mpr short long
  · intro offset
    unfold decode
    dsimp only
    rw [CountedText.decode_stored size, List.take_of_length_le short]
    rfl

end Codec

theorem Number.write_restored {number : Number} {order : ByteOrder} {strictness : Strictness}
    {raw bs : Bytes} {v : Value} {offset : Int}
    (restores : (Codec.number number order).Restores strictness raw raw v)
    (inside : Inside bs offset number.width) :
    number.write order offset v bs = .ok () (bs.overlay offset.toNat raw) :=
  (number.write_edits order offset v bs).written raw (restores.encoded offset) inside

namespace FieldType

variable {machine : Machine} {order : ByteOrder} {codec : Codec} {strictness : Strictness}
  {raw : Bytes}

theorem pointer_restores (found : pointer.codec? machine order = some codec)
    (spans : codec.Spans raw.length) : ∃ v, codec.Restores strictness raw raw v := by
  unfold codec? at found
  by_cases wide : machine.is64Bit
  · rw [if_pos wide] at found
    cases found
    exact ⟨_, Codec.quad_restores true spans⟩
  · rw [if_neg wide] at found
    cases found
    exact ⟨_, Codec.uint_restores spans⟩

theorem restores {code : FieldType} (found : code.codec? machine order = some codec)
    (spans : codec.Spans raw.length) (clean : code.Clean order raw)
    (fits : strictness.counts = true → code = counted → (raw.headD 0).toNat < raw.length) :
    ∃ v, codec.Restores strictness raw (code.canonical raw) v := by
  cases code with
  | padding => cases found
  | pointer => exact pointer_restores found spans
  | truth =>
    cases found
    obtain ⟨b, rfl⟩ := List.length_eq_one_iff.mp spans
    exact ⟨_, Codec.truth_restores b⟩
  | char =>
    cases found
    obtain ⟨b, rfl⟩ := List.length_eq_one_iff.mp spans
    exact ⟨_, Codec.char_restores b⟩
  | double =>
    cases found
    exact ⟨_, Codec.double_restores spans clean⟩
  | single =>
    cases found
    exact ⟨_, Codec.single_restores spans clean⟩
  | text =>
    cases found
    exact ⟨_, Codec.text_restores clean⟩
  | counted =>
    cases found
    exact ⟨_, Codec.counted_restores spans (fun strict => fits strict rfl) clean⟩
  | int64 =>
    cases found
    exact ⟨_, Codec.quad_restores false spans⟩
  | uint64 =>
    cases found
    exact ⟨_, Codec.quad_restores true spans⟩
  | int8 | int16 | int32 | long =>
    cases found
    exact ⟨_, Codec.int_restores (by decide) spans⟩
  | uint8 | uint16 | uint32 | ulong =>
    cases found
    exact ⟨_, Codec.uint_restores spans⟩

end FieldType

namespace Format

/-- The bytes are a record with the given bytes in its fields, each in its canonical form, and zeros
elsewhere. -/
structure Canonical (format : Format) (raws : Slot → Bytes) (record : Bytes) : Prop where
  size : (record.length : Int) = (format.layout 0).size
  fields : ∀ slot ∈ (format.layout 0).fields,
    record.window slot.offset.toNat slot.size = slot.code.canonical (raws slot)
  gaps : ∀ i < record.length, ¬ Touched (format.layout 0).fields i → record[i]? = some 0

def Clean (format : Format) (raws : Slot → Bytes) : Prop :=
  ∀ slot ∈ (format.layout 0).fields, slot.code.Clean format.convention.1.order (raws slot)

theorem canonical_record {format : Format} (accepted : format.Accepted)
    (small : (format.layout 0).size < 2 ^ 63) {raws : Slot → Bytes}
    (sizes : ∀ slot ∈ (format.layout 0).fields, (raws slot).length = slot.size)
    (clean : format.Clean raws)
    (fits : format.strictness.counts = true → ∀ slot ∈ (format.layout 0).fields,
      slot.code = .counted → ((raws slot).headD 0).toNat < slot.size) :
    ∃ values record,
      List.Forall₂ (fun slot v => ∃ codec, slot.Uses codec ∧
        codec.decode format.strictness (raws slot) slot.offset = .ok v)
        (format.layout 0).fields values ∧
      (∀ arguments checked, (spread arguments checked).1 = values →
        format.pack arguments checked = .ok record) ∧
      format.Canonical raws record ∧
      ∀ checked, format.unpack (.bytes record) checked = .ok values := by
  have whole := fault_of_accepted accepted 0
  have blank := format.length_blank
  have restored : ∀ slot ∈ (format.layout 0).fields, ∃ v,
      (∃ codec, slot.Uses codec ∧
        codec.decode format.strictness (raws slot) slot.offset = .ok v) ∧
      slot.Stores format.strictness v (slot.code.canonical (raws slot)) v := by
    intro slot member
    obtain ⟨codec, uses⟩ := field_uses member
    have length := sizes slot member
    have spans := uses.spans
    rw [← length] at spans
    obtain ⟨v, restores⟩ := FieldType.restores (field_found member uses) spans (clean slot member) (by
      intro strict code
      rw [length]
      exact fits strict slot member code)
    have encoded := restores.encoded slot.offset
    rw [length] at encoded
    exact ⟨v, ⟨codec, uses, restores.decoded slot.offset⟩,
      ⟨codec, uses, restores.plain, encoded, restores.again slot.offset⟩⟩
  obtain ⟨values, each⟩ := exists_each restored
  have stores : List.Forall₂ (fun slot v => ∃ raw w, slot.Stores format.strictness v raw w ∧
      raw = slot.code.canonical (raws slot) ∧ w = v) (format.layout 0).fields values :=
    each.imp fun slot v both => ⟨_, v, both.2, rfl, rfl⟩
  obtain ⟨record, filled, windows⟩ :=
    Fills.of_stores (format.fields_ordered 0) stores
      (fun slot member => field_within member (Int.le_of_eq blank.symm))
  have length : (record.length : Int) = (format.layout 0).size := by
    rw [filled.length, blank]
  refine ⟨values, record, each.imp fun slot v both => both.1, ?_, ⟨length, ?_, ?_⟩, ?_⟩
  · intro arguments checked given
    rw [pack_of_small whole small, given, Layout.pack_filled whole filled]
  · intro slot member
    obtain ⟨k, below, rfl⟩ := List.getElem_of_mem member
    have long : k < values.length := by
      rw [← filled.one_each]
      exact below
    obtain ⟨w, _, window, _⟩ := List.Forall₂.get windows below long
    exact window
  · intro i low free
    rw [filled.sameExcept.untouched i free, Format.blank, List.getElem?_replicate, if_pos]
    rw [filled.length, Format.blank, List.length_replicate] at low
    exact low
  · intro checked
    apply (Layout.unpack_ok checked format.strictness (fun slot member => field_uses member)
      (fun slot member => field_within member (Int.le_of_eq length.symm)) values).mpr
    refine ⟨whole, windows.imp ?_⟩
    rintro slot v ⟨w, reads, _, rfl⟩
    exact reads

def rawsOf (bs : Bytes) (slot : Slot) : Bytes := bs.window slot.offset.toNat slot.size

/-- Data that is unpacked is packed to its canonical form, which is unpacked to the same values; it is
therefore packed to itself. No data is as long as `2 ^ 63` bytes. -/
theorem pack_unpack (format : Format) (accepted : format.Accepted)
    (lenient : format.strictness.counts = false) (data : Value) (bs : Bytes)
    (taken : Storage.ofData data = .ok bs) (real : bs.length < 2 ^ 63)
    (enough : (format.layout 0).size ≤ bs.length) (clean : format.Clean (rawsOf bs)) :
    ∃ values record, (∀ checked, format.unpack data checked = .ok values) ∧
      (∀ arguments checked, (spread arguments checked).1 = values →
        format.pack arguments checked = .ok record) ∧
      format.Canonical (rawsOf bs) record ∧
      ∀ checked, format.unpack (.bytes record) checked = .ok values := by
  have inside : ∀ slot ∈ (format.layout 0).fields, Inside bs slot.offset slot.size := by
    intro slot member
    exact field_within member enough
  obtain ⟨values, record, each, packed, canonical, unpacked⟩ := canonical_record accepted (by omega)
    (fun slot member => length_window _ _ _ (inside slot member).fits) clean
    (fun strict => by rw [lenient] at strict; cases strict)
  refine ⟨values, record, ?_, packed, canonical, unpacked⟩
  intro checked
  have read := (Layout.unpack_ok checked format.strictness (fun slot member => field_uses member)
    inside values).mpr ⟨fault_of_accepted accepted 0, each⟩
  change (Storage.ofData data).bind _ = _
  rw [taken]
  exact read

/-- A truth byte other than 1, a byte of padding, a text that ends before its field, and a byte of the
next record. -/
theorem pack_unpack_dirty :
    let format : Format := ⟨"@?h3s", Machine.default, Strictness.lenient⟩
    let bs : Bytes := [7, 9, 0xFE, 0xFF, 65, 0, 66, 1]
    format.Clean (rawsOf bs) ∧
    ∃ values record, (∀ checked, format.unpack (.bytes bs) checked = .ok values) ∧
      (∀ arguments checked, (spread arguments checked).1 = values →
        format.pack arguments checked = .ok record) ∧
      format.Canonical (rawsOf bs) record ∧
      ∀ checked, format.unpack (.bytes record) checked = .ok values := by
  have fields : ((Format.mk "@?h3s" Machine.default Strictness.lenient).layout 0).fields =
      [⟨.truth, some .truth, 0, 1⟩, ⟨.int16, some (.number (.int 2) .little), 2, 2⟩,
        ⟨.text, some .text, 4, 3⟩] := by
    decide
  have accepted : (Format.mk "@?h3s" Machine.default Strictness.lenient).Accepted := by decide
  have size : ((Format.mk "@?h3s" Machine.default Strictness.lenient).layout 0).size ≤ 8 := by decide
  intro format bs
  have clean : format.Clean (rawsOf bs) := by
    unfold Clean
    rw [fields]
    intro slot member
    simp only [List.mem_cons, List.not_mem_nil, or_false] at member
    rcases member with rfl | rfl | rfl
    · trivial
    · trivial
    · exact ⟨['A'], rfl⟩
  exact ⟨clean, pack_unpack format accepted rfl (.bytes bs) bs rfl (by decide) size clean⟩

end Format
end BinaryRecord
